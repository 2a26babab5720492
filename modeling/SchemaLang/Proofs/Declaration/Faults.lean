import SchemaLang.Compile
import SchemaLang.Proofs.Sequence

/-!
# The phase of an error

Declarations, the check of references and inheritance report errors of different kinds, so the
kind of an error tells where it was found.  An outline is refused with a collision exactly when
its declarations and its references are good and inheritance is not
(`compile_eq_error_iff_of_collision`).
-/

namespace SchemaLang

open Outline (Node)

variable {options : Options} {nodes : List Node} {node : Node} {owner : String} {e : CompileError}
  {s : Schema} {o b : ObjectType} {p : Property}

/-! What is wrong with the words of a line has to do with their form or with a reserved name. -/

theorem Header.error_kind (h : Header.ofNode options node = .error e) :
    e.kind ∈ [.format, .typeSyntax, .name] := by
  rw [Header.ofNode] at h
  split at h
  · split at h
    · cases h; simp [CompileError.kind]
    · split at h
      · cases h; simp [CompileError.kind]
      · cases h
  · cases h; simp [CompileError.kind]

theorem Property.error_kind (h : Property.ofNode options owner node = .error e) :
    e.kind ∈ [.format, .typeSyntax, .name] := by
  rw [Property.ofNode] at h
  split at h
  · cases h; simp [CompileError.kind]
  · split at h
    · split at h
      · cases h; simp [CompileError.kind]
      · split at h
        · cases h; simp [CompileError.kind]
        · split at h
          · cases h; simp [CompileError.kind]
          · cases h
    · cases h; simp [CompileError.kind]

/-- Where the words of a line are refused, the error is no duplicate and no collision. -/
theorem CompileError.kind_ne_of_mem {k : ErrorKind} (h : e.kind ∈ [.format, .typeSyntax, .name])
    (hk : k ∉ [ErrorKind.format, .typeSyntax, .name]) : e.kind ≠ k :=
  fun he => hk (he ▸ h)

namespace ObjectType

theorem declare_error_kind (h : o.declare p = .error e) : e.kind ≠ .collision := by
  rw [declare] at h
  split at h
  · cases h; nofun
  · split at h
    · cases h; nofun
    · cases h

theorem redeclare_error_kind (h : o.redeclare p = .error e) : e.kind ≠ .collision := by
  rw [redeclare] at h
  split at h
  · exact declare_error_kind h
  · split at h
    · cases h
    · cases h; nofun
  · cases h; nofun
  · cases h; nofun

theorem declareAll_error_kind (h : o.declareAll options nodes = .error e) :
    e.kind ≠ .collision := by
  obtain ⟨node, _, o', h⟩ := foldlM_error h
  rcases bind_eq_error_iff.1 h with h | ⟨p, _, h⟩
  · exact CompileError.kind_ne_of_mem (Property.error_kind h) (by decide)
  · exact declare_error_kind h

theorem absorb_error_kind (h : o.absorb b = .error e) : e.kind ≠ .collision := by
  obtain ⟨p, _, o', h⟩ := foldlM_error h
  exact redeclare_error_kind h

end ObjectType

namespace Schema

theorem checkCode_error_kind {header : Header} (h : s.checkCode header = .error e) :
    e.kind ≠ .collision := by
  rw [checkCode] at h
  split at h
  · split at h
    · cases h
    · cases h; nofun
  · cases h

theorem addBlock_error_kind (h : (s.addBlock b).result = .error e) : e.kind ≠ .collision := by
  rw [addBlock] at h
  split at h
  · split at h
    · simp only [Logged.result_bind_eq_error_iff] at h
      rcases h with h | ⟨_, _, h | ⟨_, _, h⟩⟩
      · cases h
      · exact ObjectType.absorb_error_kind h
      · cases h
    · cases h; nofun
  · cases h

theorem declare_error_kind (h : (s.declare options node).result = .error e) :
    e.kind ≠ .collision := by
  simp only [declare, Logged.result_bind_eq_error_iff] at h
  rcases h with h | ⟨header, _, h | ⟨_, _, h | ⟨b, _, h⟩⟩⟩
  · exact CompileError.kind_ne_of_mem (Header.error_kind h) (by decide)
  · exact checkCode_error_kind h
  · exact ObjectType.declareAll_error_kind h
  · exact addBlock_error_kind h

theorem checkReferences_error_kind (h : s.checkReferences = .error e) : e.kind = .reference := by
  rw [checkReferences] at h
  split at h
  · cases h; rfl
  · cases h

end Schema

theorem declareAll_error_kind (h : (declareAll options nodes).result = .error e) :
    e.kind ≠ .collision := by
  rcases Logged.result_bind_eq_error_iff.1 h with h | ⟨_, _, h⟩
  · cases h
  · obtain ⟨node, _, s, h⟩ := Logged.foldlM_error h
    rw [Schema.declareUnlessDerived] at h
    split at h
    · cases h
    · exact Schema.declare_error_kind h

/-- **A collision is found in the last phase**, when the declarations and the references are
good. -/
theorem compile_eq_error_iff_of_collision (hk : e.kind = .collision) :
    (compile options nodes).result = .error e ↔
      ∃ d, (declareAll options nodes).result = .ok d ∧ d.checkReferences = .ok () ∧
        d.resolve.result = .error e := by
  simp only [compile, Logged.result_bind_eq_error_iff, Logged.liftM_eq_ofExcept,
    Logged.result_ofExcept, Logged.result_tell]
  constructor
  · rintro (h | ⟨d, hd, h | ⟨_, _, h | ⟨_, hrefs, h⟩⟩⟩)
    · exact absurd hk (declareAll_error_kind h)
    · cases h
    · rw [Schema.checkReferences_error_kind h] at hk
      cases hk
    · exact ⟨d, hd, hrefs, h⟩
  · rintro ⟨d, hd, hrefs, h⟩
    exact Or.inr ⟨d, hd, Or.inr ⟨(), trivial, Or.inr ⟨(), hrefs, h⟩⟩⟩

end SchemaLang
