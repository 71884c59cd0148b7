import Mathlib.Data.List.Basic

/-!
# Raidex.Lib.Sedes

Serializers that refuse some values, and records of named fields.

* `Restores`: what is serialized of some values is read back, and nothing else is.
* `serializeFields`, `deserializeFields`: the values of the fields, in their order.
* `deserializeFields_serializeFields`: fields that restore their values restore those of a record.
* `serializeFields_inj`: records of which the same is serialized agree on all fields.
-/

universe u

/-- Both functions are `none` where they raise. -/
structure Sedes (V I : Type u) where
  serialize : V → Option I
  deserialize : I → Option V

namespace Sedes

variable {N : Type*} {V I : Type u} {D : V → Prop} {s : Sedes V I}

/-- Values of `D` are read back as they were, and only values of `D` are read. -/
structure Restores (s : Sedes V I) (D : V → Prop) : Prop where
  restored : ∀ v i, D v → s.serialize v = some i → s.deserialize i = some v
  read : ∀ i v, s.deserialize i = some v → D v

theorem Restores.inj (h : s.Restores D) {v w : V} {i : I} (hv : D v) (hw : D w)
    (hvi : s.serialize v = some i) (hwi : s.serialize w = some i) : v = w :=
  Option.some.inj ((h.restored v i hv hvi).symm.trans (h.restored w i hw hwi))

/-! ## Fields -/

section

variable [DecidableEq N]

def serializeFields : List (N × Sedes V I) → List (N × V) → Option (List I)
  | [], _ => some []
  | f :: fs, attrs => do
    let v ← attrs.lookup f.1
    let i ← f.2.serialize v
    let is ← serializeFields fs attrs
    return i :: is

def deserializeFields : List (N × Sedes V I) → List I → Option (List V)
  | [], [] => some []
  | f :: fs, i :: is => do
    let v ← f.2.deserialize i
    let vs ← deserializeFields fs is
    return v :: vs
  | _, _ => none

variable {f : N × Sedes V I} {fs : List (N × Sedes V I)} {attrs attrs' : List (N × V)}
  {items items' : List I}

theorem serializeFields_cons : serializeFields (f :: fs) attrs = some items ↔
    ∃ v i is, attrs.lookup f.1 = some v ∧ f.2.serialize v = some i ∧
      serializeFields fs attrs = some is ∧ items = i :: is := by
  simp only [serializeFields, Option.bind_eq_bind, Option.bind_eq_some_iff, Option.pure_def,
    Option.some.injEq]
  constructor
  · rintro ⟨v, hv, i, hi, is, his, rfl⟩; exact ⟨v, i, is, hv, hi, his, rfl⟩
  · rintro ⟨v, i, is, hv, hi, his, rfl⟩; exact ⟨v, hv, i, hi, is, his, rfl⟩

theorem serializeFields_append {gs : List (N × Sedes V I)} :
    serializeFields (fs ++ gs) attrs = some items ↔
      ∃ is js, serializeFields fs attrs = some is ∧ serializeFields gs attrs = some js ∧
        items = is ++ js := by
  induction fs generalizing items with
  | nil => simp [serializeFields]
  | cons f fs ih =>
    simp only [List.cons_append, serializeFields_cons, ih]
    constructor
    · rintro ⟨v, i, _, hv, hi, ⟨is, js, his, hjs, rfl⟩, rfl⟩
      exact ⟨i :: is, js, ⟨v, i, is, hv, hi, his, rfl⟩, hjs, rfl⟩
    · rintro ⟨_, js, ⟨v, i, is, hv, hi, his, rfl⟩, hjs, rfl⟩
      exact ⟨v, i, is ++ js, hv, hi, ⟨is, js, his, hjs, rfl⟩, rfl⟩

/-- Every field that is serialized is an attribute. -/
theorem exists_lookup_of_serializeFields (h : serializeFields fs attrs = some items)
    (hf : f ∈ fs) : ∃ v, attrs.lookup f.1 = some v := by
  induction fs generalizing items with
  | nil => cases hf
  | cons g fs ih =>
    obtain ⟨v, i, is, hv, hi, his, rfl⟩ := serializeFields_cons.mp h
    rcases List.mem_cons.mp hf with rfl | hf
    · exact ⟨v, hv⟩
    · exact ih his hf

/-- What is read back are the attributes in the order of the fields. -/
theorem deserializeFields_serializeFields (hfs : ∀ f ∈ fs, f.2.Restores D)
    (hattrs : ∀ n v, attrs.lookup n = some v → D v)
    (h : serializeFields fs attrs = some items) :
    ∃ vs, deserializeFields fs items = some vs ∧
      vs.map some = fs.map fun f => attrs.lookup f.1 := by
  induction fs generalizing items with
  | nil =>
    cases h
    exact ⟨[], rfl, rfl⟩
  | cons f fs ih =>
    obtain ⟨v, i, is, hv, hi, his, rfl⟩ := serializeFields_cons.mp h
    obtain ⟨vs, hvs, hmap⟩ := ih (fun g hg => hfs g (List.mem_cons_of_mem f hg)) his
    refine ⟨v :: vs, ?_, ?_⟩
    · simp [deserializeFields, (hfs f List.mem_cons_self).restored v i (hattrs _ v hv) hi, hvs]
    · rw [List.map_cons, List.map_cons, hmap, hv]

omit [DecidableEq N] in
theorem deserializeFields_read (hfs : ∀ f ∈ fs, f.2.Restores D) {vs : List V}
    (h : deserializeFields fs items = some vs) : ∀ v ∈ vs, D v := by
  induction fs generalizing items vs with
  | nil =>
    cases items with
    | nil => cases h; simp
    | cons i is => cases h
  | cons f fs ih =>
    cases items with
    | nil => cases h
    | cons i is =>
      simp only [deserializeFields, Option.bind_eq_bind, Option.bind_eq_some_iff, Option.pure_def,
        Option.some.injEq] at h
      obtain ⟨v, hv, vs, hvs, rfl⟩ := h
      exact List.forall_mem_cons.mpr ⟨(hfs f List.mem_cons_self).read i v hv,
        ih (fun g hg => hfs g (List.mem_cons_of_mem f hg)) hvs⟩

theorem serializeFields_inj (hfs : ∀ f ∈ fs, f.2.Restores D)
    (hattrs : ∀ n v, attrs.lookup n = some v → D v)
    (hattrs' : ∀ n v, attrs'.lookup n = some v → D v)
    (h : serializeFields fs attrs = some items) (h' : serializeFields fs attrs' = some items)
    (hf : f ∈ fs) : attrs.lookup f.1 = attrs'.lookup f.1 := by
  obtain ⟨vs, hvs, hmap⟩ := deserializeFields_serializeFields hfs hattrs h
  obtain ⟨vs', hvs', hmap'⟩ := deserializeFields_serializeFields hfs hattrs' h'
  obtain rfl : vs = vs' := Option.some.inj (hvs.symm.trans hvs')
  exact List.map_inj_left.mp (hmap.symm.trans hmap') f hf

end

end Sedes
