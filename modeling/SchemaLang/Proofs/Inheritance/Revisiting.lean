import SchemaLang.Proofs.Inheritance.Indexing
import SchemaLang.Proofs.Inheritance.SubTypes

/-!
# Completing an object again

An ancestor that is reached along several paths is completed along each of them, at any time.
Only the first time does something: an object that was completed has its flat list, its ancestors
have theirs, and each of them is known to its super types, so another completion finds all that
it would add (`Completed.extend_eq_self`).

* `Partial.inheritFrom_eq_self`: to inherit what is there, from a super type that knows it, leaves
  the schema as it is.
* `Partial.extend_eq`: the super types can be read from any schema on the way.
* `extend_again`: after any sequence of completions, each of their objects, and each object above
  one of them, can be completed again without any change.
-/

namespace SchemaLang

namespace Schema

variable {d s : Schema} {name t a : String} {path : List String}

theorem setObject_self {o : ObjectType} (h : s.object? name = some o) :
    s.setObject name o = s := by
  rw [setObject, OrderedMap.insert_of_get? h]

theorem Partial.inheritFrom_eq_self (hs : d.Partial s) (hd : d.Declared) (hne : name ≠ t)
    (ht : d.Super name t) (hown : ∀ p ∈ s.own t, p ∈ s.own name) (hsub : s.Sub name t) :
    (s.inheritFrom name t).result = .ok s := by
  obtain ⟨o, ho⟩ := hs.exists_object ht.declares_left
  obtain ⟨st, hst, hknown⟩ := hsub
  have hsame : ∀ p ∈ s.own name, ∀ q ∈ s.own t, p.isSame q = true → p = q := hs.eq_of_isSame hd
  rw [own_of_object ho, own_of_object hst] at hsame hown
  have hl := hs.holds ho
  have hinh : (o.inherit st).result = .ok o := by
    refine (ObjectType.inherit_eq_ok_iff hl (hs.holds hst) hsame).2 ⟨?_, ?_, ?_, rfl, rfl⟩
    · exact fun p hp q hq => hl.eq_of_name_eq hp (hown q hq)
    · exact fun p hp q hq => hl.eq_of_code_eq hp (hown q hq)
    · rw [Property.joinNew_of_subset hown]
      exact hl
  have hst' : { st with subTypes := st.subTypes.insert name } = st := by
    rw [OrderedSet.insert_of_mem hknown]
  rw [Partial.inheritFrom_eq hne ho hst, hinh, hst', setObject_self hst]
  exact congrArg Except.ok (setObject_self ho)

theorem Completed.of_ancestor (h : d.Completed s path name) (ha : d.Ancestor name a) :
    d.Completed s path a where
  grounded := h.grounded.of_ancestor ha
  free := fun m hm hma => h.free m hm (ha.trans hma)
  flat := fun b hb => h.flat b (ha.trans hb)

theorem Completed.of_super (h : d.Completed s path name) (ht : d.Super name t) :
    d.Completed s (name :: path) t where
  grounded := (h.of_ancestor (.single ht)).grounded
  free := by
    intro m hm
    rcases List.mem_cons.1 hm with rfl | hm
    · exact h.grounded.not_ancestor ht
    · exact (h.of_ancestor (.single ht)).free m hm
  flat := (h.of_ancestor (.single ht)).flat

/-- **To complete an object again changes nothing**, when its ancestors are known to their super
types. -/
theorem Completed.extend_eq_self (hd : d.Declared) (hs : d.Partial s)
    (h : d.Completed s path name)
    (hsub : ∀ m u, d.Ancestor name m → d.Super m u → s.Sub m u) :
    (d.extend path name s).result = .ok s := by
  have hg := h.grounded
  induction hg generalizing path with
  | intro n _ ih =>
    rw [result_extend fun hm => h.free n hm (.refl n)]
    refine Logged.result_foldlM_eq_self fun t ht => ?_
    have ht : d.Super n t := ht
    have hagain : (d.extend (n :: path) t s).result = .ok s :=
      ih t ht (h.of_super ht) fun m u hm => hsub m u (.head ht hm)
    have hown : ∀ p ∈ s.own t, p ∈ s.own n := by
      rw [h.flat t (.single ht), h.flat n (.refl n)]
      exact h.grounded.flat_subset ht
    have hne : n ≠ t := fun e => h.grounded.not_ancestor ht (e ▸ .refl n)
    exact Logged.result_bind_eq_ok_iff.2
      ⟨s, hagain, hs.inheritFrom_eq_self hd hne ht hown (hsub n t (.refl n) ht)⟩

theorem Partial.extend_eq (hs : d.Partial s) (x : Schema) :
    s.extend path name x = d.extend path name x := by
  have hdeclares : s.declares = d.declares := funext fun n =>
    Bool.eq_iff_iff.2 hs.declares_iff
  induction hn : d.outside path using Nat.strongRecOn generalizing path name x with
  | ind n ih =>
    subst hn
    by_cases hp : name ∈ path
    · rw [extend, dif_pos hp, extend, dif_pos hp]
    · rw [extend, dif_neg hp]
      conv_rhs => rw [extend, dif_neg hp]
      split
      · next hnone =>
        have hnone' : d.object? name = none := by
          rw [object?_eq_none_iff, ← hs.keys, ← object?_eq_none_iff]
          exact hnone
        split
        · rfl
        · next o' ho' => rw [hnone'] at ho'; cases ho'
      · next o ho =>
        obtain ⟨o', ho', hhead⟩ := hs.header ho
        split
        · next hnone => rw [ho'] at hnone; cases hnone
        · next o'' ho'' =>
          obtain rfl : o' = o'' := Option.some.inj (ho'.symm.trans ho'')
          rw [(ObjectType.header_eq_iff.1 hhead).2.2, hdeclares]
          congr 1
          funext y t
          rw [ih _ (outside_cons_lt hp ho') y rfl]

end Schema

open Outline (Node)

variable {options : Options} {nodes : List Node} {d s : Schema} {names : List String}
  {n a : String}

/-- **What was completed can be completed again**, at any time and in any order.

After any sequence of completions that ended well, each of the objects that were completed, and
each object above one of them, can be completed once more, and the schema stays as it is.  It does
not matter whether the super types are read from the declared schema or from that one. -/
theorem extend_again (h : (declareAll options nodes).result = .ok d)
    (hs : (names.foldlM (fun s name => d.extend [] name s) d).result = .ok s) (hn : n ∈ names)
    (ha : d.Ancestor n a) :
    (d.extend [] a s).result = .ok s ∧ (s.extend [] a s).result = .ok s := by
  have hd := declared_of_declareAll h
  obtain ⟨hp, hall, _⟩ :=
    Schema.Partial.of_completeAll hd hd.partial_self (Schema.settled_self d []) hs
  have hsub := Schema.completeAll_sub_iff rfl hs
  have hagain : (d.extend [] a s).result = .ok s :=
    ((hall n hn).of_ancestor ha).extend_eq_self hd hp fun m u hm hu =>
      (hsub m u).2 (Or.inr ⟨n, hn, ha.trans hm, hu⟩)
  exact ⟨hagain, by rw [hp.extend_eq]; exact hagain⟩

theorem diamond_again : ∃ d s, (declareAll {} diamond).result = .ok d ∧
    (["bottom", "right", "bottom"].foldlM (fun s name => d.extend [] name s) d).result = .ok s ∧
    (d.extend [] "bottom" s).result = .ok s ∧ (s.extend [] "bottom" s).result = .ok s := by
  have hok : ((declareAll {} diamond).result.bind fun d =>
      (["bottom", "right", "bottom"].foldlM (fun s name => d.extend [] name s) d).result
        ).toOption.isSome := by decide +kernel
  cases h : (declareAll {} diamond).result with
  | error e => rw [h] at hok; cases hok
  | ok d =>
    rw [h] at hok
    cases hs :
        (["bottom", "right", "bottom"].foldlM (fun s name => d.extend [] name s) d).result with
    | error e => simp only [Except.bind, hs] at hok; cases hok
    | ok s => exact ⟨d, s, rfl, hs, extend_again h hs (by decide) (.refl "bottom")⟩

end SchemaLang
