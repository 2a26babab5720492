import Mathlib
import SchemaLang.CommandLine
import SchemaLang.Proofs.Data.Compact
import SchemaLang.Proofs.Origin
import SchemaLang.Proofs.References
import SchemaLang.Proofs.RoundTrip.Reading

/-!
# Checking and formatting

Checking a file prints two numbers, and formatting it prints lines.  The numbers are those of the
lines.  Both come from the same thing, which can be read off the words of the file: the names of the
objects, each where it is first declared, and with each of them the names of its properties, each
where it first occurs (`Outline.contents`).  An object or a property that is declared again is not
counted again, and a property that is inherited is counted where it was declared.

* `contents_of_compile`: a compiled schema has the contents of its outline.
* `listed_outline`: a schema is written as a line for each object and for each of its own
  properties, and these lines are told apart by their tabs.
* `countsText_inj`: the text of two numbers determines them.
* `check_format`: the tool does both, and checking what was formatted prints the same numbers.
-/

namespace SchemaLang

open Outline (Node Readable lineOf linesOf wordsOf)

/-! ### Contents -/

namespace Outline

/-- The names of the properties that the blocks of an object declare, where each first occurs. -/
def propertyNamesOf (nodes : List Node) (object : String) : List String :=
  ((nodes.filter fun node => node.name? = some object).flatMap Node.propertyNames).eraseDups

/-- **What an outline declares**: the names of its objects, each with the names of its
properties. -/
def contents (nodes : List Node) : List (String × List String) :=
  (objectNames nodes).map fun object => (object, propertyNamesOf nodes object)

def tabs (line : List Char) : Nat := (line.takeWhile (· == '\t')).length

def entryOf (line : List Char) : Nat × Option String :=
  (tabs line, (wordsOf (String.ofList line)).head?)

def entries (contents : List (String × List String)) : List (Nat × Option String) :=
  contents.flatMap fun e => (0, some e.1) :: e.2.map fun property => (1, some property)

/-- **The lines list the contents**, and each is one line indeed. -/
structure Listed (lines : List (List Char)) (contents : List (String × List String)) : Prop where
  entries : lines.map entryOf = entries contents
  unbroken : ∀ line ∈ lines, '\n' ∉ line

theorem countP_entries_zero : ∀ contents : List (String × List String),
    (entries contents).countP (·.1 = 0) = contents.length
  | [] => rfl
  | e :: contents => by
    have hbelow : (e.2.map fun property => (1, some property)).countP (·.1 = 0) = 0 := by
      simp [List.countP_map]
    rw [entries, List.flatMap_cons, List.cons_append, List.countP_cons_of_pos (by rfl),
      List.countP_append, hbelow, ← entries, countP_entries_zero contents, List.length_cons]
    omega

theorem countP_entries_one : ∀ contents : List (String × List String),
    (entries contents).countP (·.1 = 1) = (contents.map fun e => e.2.length).sum
  | [] => rfl
  | e :: contents => by
    have hbelow : (e.2.map fun property => (1, some property)).countP (·.1 = 1) = e.2.length := by
      simp [List.countP_map]
    rw [entries, List.flatMap_cons, List.cons_append, List.countP_cons_of_neg (by simp),
      List.countP_append, hbelow, ← entries, countP_entries_one contents, List.map_cons,
      List.sum_cons]

theorem length_entries : ∀ contents : List (String × List String),
    (entries contents).length = contents.length + (contents.map fun e => e.2.length).sum
  | [] => rfl
  | e :: contents => by
    rw [entries, List.flatMap_cons, List.length_append, List.length_cons, List.length_map,
      ← entries, length_entries contents, List.length_cons, List.map_cons, List.sum_cons]
    omega

theorem entryOf_lineOf {depth : Nat} {w : String} {ws : List String} (h : Readable (w :: ws)) :
    entryOf (lineOf depth (w :: ws)) = (depth, some w) := by
  obtain ⟨c, r, hs, hc⟩ := exists_spaced_eq_cons h
  have hctab : c ≠ '\t' := fun e => by rw [e] at hc; exact absurd hc (by decide)
  rw [entryOf, wordsOf_lineOf h.isWord, tabs, lineOf, hs,
    List.takeWhile_append_of_pos fun a ha => by rw [List.eq_of_mem_replicate ha]; rfl,
    List.takeWhile_cons_of_neg (by simpa using hctab), List.append_nil, List.length_replicate]
  rfl

end Outline

variable {options : Options} {source : String} {nodes : List Node} {s : Schema}

def Schema.contents (s : Schema) : List (String × List String) :=
  s.objectList.map fun o => (o.name, o.ownProperties.map Property.name)

/-- **A compiled schema has the contents of its outline.** -/
theorem contents_of_compile (h : (compile options nodes).result = .ok s) :
    s.contents = Outline.contents (options.declared nodes) := by
  obtain ⟨d, hdecl, _, hs⟩ := compile_eq_ok_iff.1 h
  obtain ⟨bs, hbs, hcollects⟩ := collects_of_declareAll hdecl
  obtain ⟨hp, _⟩ := hcollects.declared.of_resolve hs
  have hnamed := hp.named hcollects.declared
  rw [Outline.contents, ← hcollects.keys_eq hbs, ← hp.keys, ← hnamed.map_name_objectList,
    List.map_map, Schema.contents]
  refine List.map_congr_left fun o ho => ?_
  have hmerges := hcollects.mergesFrom hbs hs (hnamed.object?_name ho)
  rw [hmerges.names]
  rfl

theorem Schema.size_eq (s : Schema) : s.size = s.contents.length := by
  rw [contents, List.length_map, objectList, OrderedMap.values, List.length_map]
  rfl

theorem Schema.propertyCount_eq (s : Schema) :
    s.propertyCount = (s.contents.map fun e => e.2.length).sum := by
  rw [contents, List.map_map, List.sum, List.foldr_map, propertyCount]
  simp only [Function.comp_apply, List.length_map]

theorem Schema.listed_outline
    (hreadable : ∀ node ∈ Outline.flatten s.outline, Readable node.words) :
    Outline.Listed (linesOf 0 s.outline) s.contents := by
  have hobject : ∀ o ∈ s.objectList, Readable o.words := fun o ho =>
    hreadable o.node (Outline.mem_flatten_of_mem (List.mem_map_of_mem ho))
  have hproperty : ∀ o ∈ s.objectList, ∀ p ∈ o.ownProperties, Readable p.words := fun o ho p hp =>
    hreadable p.node
      (Outline.mem_flatten_of_mem_children (List.mem_map_of_mem ho) (List.mem_map_of_mem hp))
  refine ⟨?_, fun line hline hbreak => ?_⟩
  · rw [outline, linesOf_map_object, Outline.entries, contents, List.flatMap_map, List.map_flatMap]
    refine List.flatMap_congr fun o ho => ?_
    rw [List.map_cons, List.map_map, List.map_map]
    refine List.cons_eq_cons.2 ⟨Outline.entryOf_lineOf (hobject o ho), ?_⟩
    exact List.map_congr_left fun p hp => Outline.entryOf_lineOf (hproperty o ho p hp)
  · rw [linesOf, List.mem_map] at hline
    obtain ⟨x, hx, rfl⟩ := hline
    have hwords := hreadable x.2 (List.mem_map_of_mem hx)
    exact (Outline.not_newline_of_mem_lineOf hwords.isWord _ hbreak).1 rfl

/-! ### Running the tool -/

def countsText (n m : Nat) : String :=
  Data.compact
    (.mapping [Data.field "objects" (.integer n), Data.field "properties" (.integer m)]) ++ "\n"

theorem Schema.summary_eq (s : Schema) : s.summary = countsText s.size s.propertyCount := rfl

/-- **What is printed determines the numbers.** -/
theorem countsText_inj {n m k l : Nat} (h : countsText n m = countsText k l) : n = k ∧ m = l := by
  rw [countsText, countsText, String.append_left_inj, Data.compact_eq_compact_iff] at h
  have hparts : (n : Int) = k ∧ (m : Int) = l := by
    simpa [Data.labelled, Data.labelFields, Data.field] using h
  exact hparts.imp Int.ofNat.inj Int.ofNat.inj

namespace Invocation

variable {reader : FileReader Id} {config : Option String} {reserved : List String}
  {file : String}

theorem run_bind_of_run_eq_ok {ε α β : Type} {x : ExceptT ε Id α} {f : α → ExceptT ε Id β} {a : α}
    (h : x.run = .ok a) : (x >>= f).run = (f a).run := by
  have hx : x = pure a := h
  rw [hx, pure_bind]

theorem run_readText (hfile : reader file = .ok source) :
    (readText reader file).run = .ok source := by
  rw [readText]
  exact run_bind_of_run_eq_ok (congrArg Except.ok hfile)

theorem run_schemaOf (hfile : reader file = .ok source)
    (hs : (compileText options source).result = .ok s) :
    (schemaOf reader options file).run = .ok s := by
  rw [schemaOf, run_bind_of_run_eq_ok (run_readText hfile), hs]
  rfl

theorem run_check (hoptions : (Invocation.options reader ⟨config, reserved, .check file⟩).run =
    .ok options) (hfile : reader file = .ok source)
    (hs : (compileText options source).result = .ok s) :
    (run reader ⟨config, reserved, .check file⟩).run = .ok s.summary := by
  rw [run, run_bind_of_run_eq_ok hoptions]
  exact run_bind_of_run_eq_ok (run_schemaOf hfile hs)

theorem run_format (hoptions : (Invocation.options reader ⟨config, reserved, .format file⟩).run =
    .ok options) (hfile : reader file = .ok source)
    (hs : (compileText options source).result = .ok s) :
    (run reader ⟨config, reserved, .format file⟩).run = .ok s.text := by
  rw [run, run_bind_of_run_eq_ok hoptions]
  exact run_bind_of_run_eq_ok (run_schemaOf hfile hs)

/-- **Checking and formatting agree.**

Of a file that compiles, checking prints two numbers.  Formatting writes as many lines as they add
up to, each with its line end.  The first number is that of the lines without a tab, one for each
name of an object, in the order in which the names are first declared.  The second one is that of
the lines with one tab, below the line of an object one for each name of a property that its blocks
declare.  And wherever the formatted text is checked under the same options, the same two numbers
are printed. -/
theorem check_format
    (hoptions : (Invocation.options reader ⟨config, reserved, .check file⟩).run = .ok options)
    (hfile : reader file = .ok source) (hread : Outline.read source = .ok nodes)
    (hs : (compileText options source).result = .ok s) :
    (∃ n m, (run reader ⟨config, reserved, .check file⟩).run = .ok (countsText n m)) ∧
    ∀ n m, (run reader ⟨config, reserved, .check file⟩).run = .ok (countsText n m) →
      ∃ text lines, (run reader ⟨config, reserved, .format file⟩).run = .ok text ∧
        text.toList = (lines.flatMap fun line => line ++ ['\n']) ∧
        Outline.Listed lines (Outline.contents (options.declared nodes)) ∧
        lines.length = n + m ∧
        (lines.countP fun line => Outline.tabs line = 0) = n ∧
        (lines.countP fun line => Outline.tabs line = 1) = m ∧
        n = (Outline.objectNames (options.declared nodes)).length ∧
        m = ((Outline.objectNames (options.declared nodes)).map fun object =>
          (Outline.propertyNamesOf (options.declared nodes) object).length).sum ∧
        ∀ (reader' : FileReader Id) config' reserved' file',
          (Invocation.options reader' ⟨config', reserved', .check file'⟩).run = .ok options →
          reader' file' = .ok text →
          (run reader' ⟨config', reserved', .check file'⟩).run = .ok (countsText n m) := by
  have hcompile : (compile options nodes).result = .ok s := by
    obtain ⟨nodes', hread', h⟩ := compileText_eq_ok_iff.1 hs
    obtain rfl : nodes = nodes' := Except.ok.inj (hread.symm.trans hread')
    exact h
  have hcheck := run_check hoptions hfile hs
  -- what was printed tells the numbers, so they are those of `s`
  refine ⟨⟨s.size, s.propertyCount, hcheck⟩, fun n m h => ?_⟩
  obtain ⟨rfl, rfl⟩ := countsText_inj (Except.ok.inj (h.symm.trans hcheck))
  have hcontents := contents_of_compile hcompile
  have hlisted := Schema.listed_outline (readable_outline_of_read hread hcompile)
  -- to count lines is to count entries, and these are known
  have hentries : ∀ p : Nat × Option String → Bool,
      (linesOf 0 s.outline).countP (p ∘ Outline.entryOf) = (Outline.entries s.contents).countP p :=
    fun p => by rw [← hlisted.entries, List.countP_map]
  refine ⟨s.text, linesOf 0 s.outline, run_format hoptions hfile hs, ?_, hcontents ▸ hlisted,
    ?_, ?_, ?_, ?_, ?_, fun reader' config' reserved' file' hoptions' hfile' => ?_⟩
  · rw [Schema.text_eq_write (holds_of_compile hcompile), Outline.write, String.toList_ofList]
  · rw [s.size_eq, s.propertyCount_eq, ← Outline.length_entries, ← hlisted.entries,
      List.length_map]
  · rw [s.size_eq, ← Outline.countP_entries_zero, ← hentries]
    rfl
  · rw [s.propertyCount_eq, ← Outline.countP_entries_one, ← hentries]
    rfl
  · rw [s.size_eq, hcontents, Outline.contents, List.length_map]
  · rw [s.propertyCount_eq, hcontents, Outline.contents, List.map_map]
    rfl
  · exact run_check hoptions' hfile' (compileText_text_of_relaxes hs ⟨rfl, fun _ hr => hr⟩)

def untidyPlace : FileReader Id := fun file =>
  if file = "things" then .ok untidyText else .error "No such file or directory (os error 2)"

theorem untidyPlace_check_format :
    (run untidyPlace ⟨none, ["nobody"], .check "things"⟩).run = .ok (countsText 2 3) ∧
    ∃ (text : String) (lines : List (List Char)),
      (run untidyPlace ⟨none, ["nobody"], .format "things"⟩).run = .ok text ∧
      text.toList = (lines.flatMap fun line => line ++ ['\n']) ∧ lines.length = 2 + 3 := by
  have hcounts : (compileText ⟨["nobody"], true⟩ untidyText).result.toOption.map
      (fun s => (s.size, s.propertyCount)) = some (2, 3) := by decide +kernel
  cases hs : (compileText ⟨["nobody"], true⟩ untidyText).result with
  | error e => rw [hs] at hcounts; cases hcounts
  | ok s =>
    rw [hs] at hcounts
    obtain ⟨hsize, hcount⟩ := Prod.mk.inj (Option.some.inj hcounts)
    have hoptions : (Invocation.options untidyPlace ⟨none, ["nobody"], .check "things"⟩).run =
        .ok ⟨["nobody"], true⟩ := rfl
    have hfile : untidyPlace "things" = .ok untidyText := rfl
    obtain ⟨nodes, hread, _⟩ := compileText_eq_ok_iff.1 hs
    have hcheck : (run untidyPlace ⟨none, ["nobody"], .check "things"⟩).run =
        .ok (countsText 2 3) := by
      rw [run_check hoptions hfile hs, s.summary_eq, hsize, hcount]
    obtain ⟨text, lines, hformat, htext, _, hlength, _⟩ :=
      (check_format hoptions hfile hread hs).2 2 3 hcheck
    exact ⟨hcheck, text, lines, hformat, htext, hlength⟩

end Invocation
end SchemaLang
