import SchemaLang.Proofs.Declaration.Block

/-!
# Merging blocks

An object takes in a further block of its own name: the super types of the block join
its super types, and each property of the block goes to its place, which is that of
the property of the same name if there is one.

* `ObjectType.redeclare_eq_ok_iff`: one property is taken in when it agrees with what
  is there, that is, shares both name and code with another property or neither.
* `ObjectType.absorb_eq_ok_iff`: a block is taken in when all its properties agree
  with all that were there before, so that the order of its properties does not
  matter.
-/

namespace SchemaLang

/-! ### Taking in a block -/

namespace ObjectType

variable {o o' b : ObjectType} {l ps : List Property} {p : Property}

theorem redeclare_eq_ok_iff (h : o.Holds l) :
    o.redeclare p = .ok o' ↔ (∀ q ∈ l, q.Agrees p) ∧ o' = o.insertProperty p := by
  rw [redeclare]
  cases hn : o.property? p.name with
  | none =>
    have hname := h.property?_eq_none_iff.1 hn
    cases hc : o.propertyByCode? p.code with
    | none =>
      have hcode := h.propertyByCode?_eq_none_iff.1 hc
      simp only [declare_eq_ok_iff h]
      exact ⟨fun hh => ⟨fun q hq => (hh.1 q hq).agrees, hh.2⟩,
        fun hh => ⟨fun q hq => ⟨hname q hq, hcode q hq⟩, hh.2⟩⟩
    | some b =>
      obtain ⟨hb, eb⟩ := h.propertyByCode?_eq_some_iff.1 hc
      exact ⟨fun hh => (by cases hh), fun hh => absurd ((hh.1 b hb).2 eb) (hname b hb)⟩
  | some a =>
    obtain ⟨ha, ea⟩ := h.property?_eq_some_iff.1 hn
    cases hc : o.propertyByCode? p.code with
    | none =>
      have hcode := h.propertyByCode?_eq_none_iff.1 hc
      exact ⟨fun hh => (by cases hh), fun hh => absurd ((hh.1 a ha).1 ea) (hcode a ha)⟩
    | some b =>
      obtain ⟨hb, eb⟩ := h.propertyByCode?_eq_some_iff.1 hc
      have hiff : (a.code = p.code ∧ b.name = p.name) ↔ ∀ q ∈ l, q.Agrees p := by
        constructor
        · rintro ⟨hac, hbn⟩ q hq
          constructor
          · intro e; rw [h.eq_of_name_eq hq ha (e.trans ea.symm)]; exact hac
          · intro e; rw [h.eq_of_code_eq hq hb (e.trans eb.symm)]; exact hbn
        · exact fun hl => ⟨(hl a ha).1 ea, (hl b hb).2 eb⟩
      simp only
      by_cases hab : a.code = p.code ∧ b.name = p.name
      · rw [if_pos hab]
        exact ⟨fun hh => ⟨hiff.1 hab, (Except.ok.inj hh).symm⟩, fun hh => by rw [hh.2]⟩
      · rw [if_neg hab]
        exact ⟨fun hh => (by cases hh), fun hh => absurd (hiff.2 hh.1) hab⟩

theorem foldlM_redeclare_eq_ok_iff (h : o.Holds l) (hps : ps.Pairwise Property.Apart) :
    ps.foldlM redeclare o = .ok o' ↔
      (∀ q ∈ l, ∀ p ∈ ps, q.Agrees p) ∧ o' = o.insertProperties ps := by
  induction ps generalizing o l with
  | nil => rw [foldlM_nil_eq_ok_iff]; exact ⟨fun e => ⟨by simp, e⟩, fun hh => hh.2⟩
  | cons p ps ih =>
    obtain ⟨hp, hps⟩ := List.pairwise_cons.1 hps
    rw [foldlM_cons_eq_ok_iff]
    constructor
    · rintro ⟨o₁, h1, h2⟩
      obtain ⟨hlp, rfl⟩ := (redeclare_eq_ok_iff h).1 h1
      obtain ⟨hrest, rfl⟩ := (ih (h.insertProperty hlp) hps).1 h2
      refine ⟨fun q hq r hr => ?_, rfl⟩
      rcases List.mem_cons.1 hr with rfl | hr
      · exact hlp q hq
      · exact (h.agrees_place_iff hlp (hp r hr).agrees).1 (fun x hx => hrest x hx r hr) q hq
    · rintro ⟨hl, rfl⟩
      have hlp : ∀ q ∈ l, q.Agrees p := fun q hq => hl q hq p List.mem_cons_self
      refine ⟨o.insertProperty p, (redeclare_eq_ok_iff h).2 ⟨hlp, rfl⟩, ?_⟩
      refine (ih (h.insertProperty hlp) hps).2 ⟨fun q hq r hr => ?_, rfl⟩
      exact (h.agrees_place_iff hlp (hp r hr).agrees).2
        (fun x hx => hl x hx r (List.mem_cons_of_mem p hr)) q hq

def merge (o b : ObjectType) : ObjectType :=
  { o with superTypes := o.superTypes.union b.superTypes }.insertProperties b.properties.values

/-- **A block is taken in exactly when all its properties agree with all that are
there.** -/
theorem absorb_eq_ok_iff (h : o.Holds l) (hb : b.Holds ps) :
    o.absorb b = .ok o' ↔ (∀ q ∈ l, ∀ p ∈ ps, q.Agrees p) ∧ o' = o.merge b := by
  have ho : { o with superTypes := o.superTypes.union b.superTypes }.Holds l :=
    h.of_indexes_eq rfl rfl
  rw [absorb, hb.values, foldlM_redeclare_eq_ok_iff ho hb.pairwise_apart, merge, hb.values]

theorem header_merge : (o.merge b).header = ⟨o.name, o.code, o.superTypes.union b.superTypes⟩ :=
  header_insertProperties

theorem subTypes_merge : (o.merge b).subTypes = o.subTypes := subTypes_insertProperties

theorem Holds.merge (h : o.Holds l) (hb : b.Holds ps) (hl : ∀ q ∈ l, ∀ p ∈ ps, q.Agrees p) :
    (o.merge b).Holds (Property.placeAll ps l) := by
  have ho : { o with superTypes := o.superTypes.union b.superTypes }.Holds l :=
    h.of_indexes_eq rfl rfl
  rw [ObjectType.merge, hb.values]
  exact ho.insertProperties hl hb.pairwise_apart

end ObjectType
end SchemaLang
