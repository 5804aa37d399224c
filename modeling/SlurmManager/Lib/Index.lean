import SlurmManager.Lib.Dict

/-!
# Index — registrations filed by key and found again by identifier

An `Index κ ι ν` keeps values under a key `κ` and an identifier `ι` twice: `buckets` files them by
key, `owner` leads from the identifier back to the key.  The two dictionaries are updated one after
the other by every operation, so that they agree is an invariant (`Consistent`) and not a type.

* `find?`: the abstraction.  A consistent index is one partial map from identifiers to a key and a
  value; `owner` and `buckets` are both read off it (`owner_eq`, `find?_eq_some_iff`).
* `insert`, `eraseId`, `eraseBucket`, `mapBucket`: the operations.  Each keeps `Consistent` and acts
  on `find?` as an update, a deletion, a filter and a map.
* A bucket exists as long as something is filed in it (`buckets_isSome_iff`): it appears with its
  first member and goes with its last.
* `Emptied`: a key loses its last identifier.  Two removals empty a key when the first one does or the
  second one does of what is left (`emptied_or`).
-/

structure Index (κ ι ν : Type) where
  buckets : Dict κ (Dict ι ν)
  owner : Dict ι κ

namespace Index

variable {κ ι ν : Type} [DecidableEq κ] [DecidableEq ι]

/-- What is filed under `k`; empty when the key is absent. -/
def bucket (ix : Index κ ι ν) (k : κ) : Dict ι ν := (ix.buckets.get? k).getD ∅

/-- The registration of an identifier: its key and its value. -/
def find? (ix : Index κ ι ν) (i : ι) : Option (κ × ν) :=
  (ix.owner.get? i).bind fun k => ((ix.bucket k).get? i).map fun v => (k, v)

/-- The two directions agree, and no empty bucket is kept. -/
structure Consistent (ix : Index κ ι ν) : Prop where
  owner_iff : ∀ i k, ix.owner.get? i = some k ↔ ((ix.bucket k).get? i).isSome
  nonempty : ∀ k b, ix.buckets.get? k = some b → b.isEmpty = false

/-! ## Reading a consistent index -/

section Reading

variable {ix : Index κ ι ν} (h : ix.Consistent)
include h

theorem find?_eq_some_iff {i : ι} {k : κ} {v : ν} :
    ix.find? i = some (k, v) ↔ (ix.bucket k).get? i = some v := by
  unfold find?
  constructor
  · intro hf
    obtain ⟨k', hk', hv⟩ := Option.bind_eq_some_iff.mp hf
    obtain ⟨v', hv', he⟩ := Option.map_eq_some_iff.mp hv
    obtain ⟨rfl, rfl⟩ := Prod.mk.inj he
    exact hv'
  · intro hv
    have hk : ix.owner.get? i = some k := (h.owner_iff i k).mpr (by simp [hv])
    simp [hk, hv]

theorem owner_eq (i : ι) : ix.owner.get? i = (ix.find? i).map Prod.fst := by
  cases ho : ix.owner.get? i with
  | none => simp [find?, ho]
  | some k =>
    obtain ⟨v, hv⟩ := Option.isSome_iff_exists.mp ((h.owner_iff i k).mp ho)
    simp [(find?_eq_some_iff h).mpr hv]

theorem find?_eq_none_iff {i : ι} : ix.find? i = none ↔ ix.owner.get? i = none := by
  rw [owner_eq h]; simp

theorem owner_eq_some_iff {i : ι} {k : κ} :
    ix.owner.get? i = some k ↔ ∃ v, ix.find? i = some (k, v) := by
  rw [owner_eq h]
  simp

/-- A key is present exactly when something is filed under it. -/
theorem buckets_isSome_iff {k : κ} :
    (ix.buckets.get? k).isSome ↔ ∃ i v, ix.find? i = some (k, v) := by
  simp only [find?_eq_some_iff h, bucket]
  constructor
  · intro hk
    obtain ⟨b, hb⟩ := Option.isSome_iff_exists.mp hk
    obtain ⟨i, v, hv⟩ := Dict.isEmpty_eq_false_iff.mp (h.nonempty k b hb)
    exact ⟨i, v, by simp [hb, hv]⟩
  · rintro ⟨i, v, hv⟩
    cases hb : ix.buckets.get? k with
    | none => simp [hb] at hv
    | some b => rfl

end Reading

/-! ## Operations -/

section Operations

/-- File a new registration. -/
def insert (ix : Index κ ι ν) (k : κ) (i : ι) (v : ν) : Index κ ι ν where
  buckets := ix.buckets.set k ((ix.bucket k).set i v)
  owner := ix.owner.set i k

/-- Drop the registration of an identifier, and its bucket with the last member. -/
def eraseId (ix : Index κ ι ν) (i : ι) : Index κ ι ν :=
  match ix.owner.get? i with
  | none => ix
  | some k =>
    let rest := (ix.bucket k).erase i
    { buckets := if rest.isEmpty then ix.buckets.erase k else ix.buckets.set k rest
      owner := ix.owner.erase i }

/-- Drop everything filed under a key. -/
def eraseBucket (ix : Index κ ι ν) (k : κ) : Index κ ι ν where
  buckets := ix.buckets.erase k
  owner := ix.owner.eraseAll (ix.bucket k).keys

/-- Change the values filed under a key in place. -/
def mapBucket (ix : Index κ ι ν) (k : κ) (f : ι → ν → ν) : Index κ ι ν :=
  match ix.buckets.get? k with
  | none => ix
  | some b => { ix with buckets := ix.buckets.set k (b.mapValues f) }

omit [DecidableEq ι] in
theorem bucket_set (ix : Index κ ι ν) (k k' : κ) (b : Dict ι ν) (o : Dict ι κ) :
    bucket ⟨ix.buckets.set k b, o⟩ k' = if k' = k then b else ix.bucket k' := by
  simp only [bucket, Dict.get?_set]
  split_ifs <;> rfl

omit [DecidableEq ι] in
theorem bucket_erase (ix : Index κ ι ν) (k k' : κ) (o : Dict ι κ) :
    bucket ⟨ix.buckets.erase k, o⟩ k' = if k' = k then ∅ else ix.bucket k' := by
  simp only [bucket, Dict.get?_erase]
  split_ifs <;> rfl

theorem bucket_eraseId {ix : Index κ ι ν} {i : ι} {k : κ} (ho : ix.owner.get? i = some k) (k' : κ) :
    ((ix.eraseId i).bucket k') = if k' = k then (ix.bucket k).erase i else ix.bucket k' := by
  simp only [eraseId, ho]
  by_cases he : ((ix.bucket k).erase i).isEmpty
  · simp only [he, if_true, bucket_erase]
    split_ifs with hk
    · have hnil : ((ix.bucket k).erase i).entries = [] := by simpa [Dict.isEmpty] using he
      cases hb : (ix.bucket k).erase i with
      | mk l hl => rw [hb] at hnil; subst hnil; rfl
    · rfl
  · simp only [he, Bool.false_eq_true, if_false, bucket_set]

theorem consistent_empty : (⟨∅, ∅⟩ : Index κ ι ν).Consistent :=
  ⟨by simp [bucket], by simp⟩

variable {ix : Index κ ι ν} (h : ix.Consistent)
include h

theorem Consistent.insert {k : κ} {i : ι} {v : ν} (hi : ix.owner.get? i = none) :
    (ix.insert k i v).Consistent := by
  refine ⟨fun i' k' => ?_, fun k' b hb => ?_⟩
  · rw [Index.insert, bucket_set, Dict.get?_set]
    by_cases hik : i' = i
    · subst hik
      by_cases hk : k' = k
      · simp [hk]
      · have hno : ¬ ((ix.bucket k').get? i').isSome = true := fun hs => by
          rw [(h.owner_iff i' k').mpr hs] at hi; simp at hi
        simp [hk, Ne.symm hk, hno]
    · by_cases hk : k' = k
      · subst hk; simp [hik, Dict.get?_set, h.owner_iff]
      · simp [hik, hk, h.owner_iff]
  · simp only [Index.insert, Dict.get?_set] at hb
    split_ifs at hb with hk
    · rw [← Option.some.inj hb, Dict.isEmpty_eq_false_iff]
      exact ⟨i, v, by simp⟩
    · exact h.nonempty k' b hb

theorem Consistent.eraseId (i : ι) : (ix.eraseId i).Consistent := by
  cases ho : ix.owner.get? i with
  | none => simpa [Index.eraseId, ho] using h
  | some k =>
    refine ⟨fun i' k' => ?_, fun k' b hb => ?_⟩
    · rw [bucket_eraseId ho]
      have howner : (ix.eraseId i).owner = ix.owner.erase i := by simp [Index.eraseId, ho]
      rw [howner, Dict.get?_erase]
      by_cases hk : k' = k
      · subst hk
        by_cases hi : i' = i <;> simp [hi, Dict.get?_erase, h.owner_iff]
      · by_cases hi : i' = i
        · subst hi
          have hno : ¬ ((ix.bucket k').get? i').isSome = true := fun hs => by
            rw [(h.owner_iff i' k').mpr hs] at ho
            exact hk (Option.some.inj ho)
          simp [hk, hno]
        · simp [hi, hk, h.owner_iff]
    · by_cases he : ((ix.bucket k).erase i).isEmpty
      · simp only [Index.eraseId, ho, he, if_true, Dict.get?_erase] at hb
        split_ifs at hb
        exact h.nonempty k' b hb
      · simp only [Index.eraseId, ho, he, Bool.false_eq_true, if_false, Dict.get?_set] at hb
        split_ifs at hb
        · rw [← Option.some.inj hb]; simpa using he
        · exact h.nonempty k' b hb

theorem Consistent.eraseBucket (k : κ) : (ix.eraseBucket k).Consistent := by
  refine ⟨fun i' k' => ?_, fun k' b hb => ?_⟩
  · rw [Index.eraseBucket, bucket_erase, Dict.get?_eraseAll]
    simp only [Dict.mem_keys_iff, ← h.owner_iff]
    by_cases hk : k' = k
    · subst hk
      by_cases ho : ix.owner.get? i' = some k' <;> simp [ho]
    · by_cases ho : ix.owner.get? i' = some k
      · have hno : ¬ ((ix.bucket k').get? i').isSome = true := fun hs => by
          rw [(h.owner_iff i' k').mpr hs] at ho
          exact hk (Option.some.inj ho)
        simp [ho, hk, hno]
      · simp [ho, hk, h.owner_iff]
  · simp only [Index.eraseBucket, Dict.get?_erase] at hb
    split_ifs at hb
    exact h.nonempty k' b hb

omit h [DecidableEq ι] in
theorem bucket_mapBucket (ix : Index κ ι ν) (k k' : κ) (f : ι → ν → ν) :
    (ix.mapBucket k f).bucket k' =
      if k' = k then (ix.bucket k).mapValues f else ix.bucket k' := by
  unfold mapBucket
  cases hb : ix.buckets.get? k with
  | none =>
    split_ifs with hk
    · simp [bucket, hk, hb]; rfl
    · rfl
  | some b =>
    simp only [bucket_set]
    split_ifs
    · simp [bucket, hb]
    · rfl

omit h [DecidableEq ι] in
@[simp] theorem owner_mapBucket (ix : Index κ ι ν) (k : κ) (f : ι → ν → ν) :
    (ix.mapBucket k f).owner = ix.owner := by
  unfold mapBucket
  cases ix.buckets.get? k <;> rfl

theorem Consistent.mapBucket (k : κ) (f : ι → ν → ν) : (ix.mapBucket k f).Consistent := by
  refine ⟨fun i' k' => ?_, fun k' b hb => ?_⟩
  · rw [owner_mapBucket, bucket_mapBucket, h.owner_iff]
    split_ifs with hk
    · subst hk; simp
    · rfl
  · unfold Index.mapBucket at hb
    cases hk : ix.buckets.get? k with
    | none => rw [hk] at hb; exact h.nonempty k' b hb
    | some b' =>
      rw [hk] at hb
      simp only [Dict.get?_set] at hb
      split_ifs at hb
      · rw [← Option.some.inj hb, Dict.isEmpty_eq_false_iff]
        obtain ⟨i, v, hv⟩ := Dict.isEmpty_eq_false_iff.mp (h.nonempty k b' hk)
        exact ⟨i, f i v, by simp [hv]⟩
      · exact h.nonempty k' b hb

/-! ### Their effect on the registrations -/

theorem find?_insert {k : κ} {i : ι} {v : ν} (hi : ix.owner.get? i = none) (i' : ι) :
    (ix.insert k i v).find? i' = if i' = i then some (k, v) else ix.find? i' := by
  have hc := h.insert (k := k) (v := v) hi
  by_cases hii : i' = i
  · rw [if_pos hii, find?_eq_some_iff hc, Index.insert, bucket_set, if_pos rfl, hii]
    simp
  · rw [if_neg hii]
    refine Option.ext fun p => ?_
    obtain ⟨k', v'⟩ := p
    rw [find?_eq_some_iff hc, find?_eq_some_iff h, Index.insert, bucket_set]
    split_ifs with hk
    · subst hk; rw [Dict.get?_set_ne _ _ hii]
    · rfl

theorem find?_eraseId (i i' : ι) :
    (ix.eraseId i).find? i' = if i' = i then none else ix.find? i' := by
  have hc := h.eraseId i
  cases ho : ix.owner.get? i with
  | none =>
    have hn := (find?_eq_none_iff h).mpr ho
    simp only [eraseId, ho]
    split_ifs with hii
    · rw [hii, hn]
    · rfl
  | some k =>
    by_cases hii : i' = i
    · rw [if_pos hii, find?_eq_none_iff hc]
      simp [eraseId, ho, hii]
    · rw [if_neg hii]
      refine Option.ext fun p => ?_
      obtain ⟨k', v'⟩ := p
      rw [find?_eq_some_iff hc, find?_eq_some_iff h, bucket_eraseId ho]
      split_ifs with hk
      · subst hk; rw [Dict.get?_erase_ne _ hii]
      · rfl

theorem find?_eraseBucket (k : κ) (i : ι) :
    (ix.eraseBucket k).find? i = (ix.find? i).filter fun p => p.1 ≠ k := by
  have hc := h.eraseBucket k
  refine Option.ext fun p => ?_
  obtain ⟨k', v'⟩ := p
  rw [find?_eq_some_iff hc, Option.filter_eq_some_iff, find?_eq_some_iff h, Index.eraseBucket,
    bucket_erase]
  split_ifs with hk <;> simp [hk]

theorem find?_mapBucket (k : κ) (f : ι → ν → ν) (i : ι) :
    (ix.mapBucket k f).find? i =
      (ix.find? i).map fun p => if p.1 = k then (p.1, f i p.2) else p := by
  have hc := h.mapBucket k f
  refine Option.ext fun p => ?_
  obtain ⟨k', v'⟩ := p
  rw [find?_eq_some_iff hc, bucket_mapBucket, Option.map_eq_some_iff]
  constructor
  · intro hv
    split_ifs at hv with hk
    · subst hk
      rw [Dict.get?_mapValues] at hv
      obtain ⟨v, hv', rfl⟩ := Option.map_eq_some_iff.mp hv
      exact ⟨(k', v), (find?_eq_some_iff h).mpr hv', by simp⟩
    · exact ⟨(k', v'), (find?_eq_some_iff h).mpr hv, by simp [hk]⟩
  · rintro ⟨⟨k₀, v₀⟩, hf, he⟩
    have hv := (find?_eq_some_iff h).mp hf
    split_ifs at he with hk
    · obtain ⟨rfl, rfl⟩ := Prod.mk.inj he
      rw [if_pos hk, Dict.get?_mapValues, ← hk, hv]
      rfl
    · obtain ⟨rfl, rfl⟩ := Prod.mk.inj he
      rw [if_neg hk, hv]

end Operations

/-! ## Keys that lose their last identifier -/

section Emptied

variable {under under' : ι → κ → Prop} {I J : ι → Prop} {k : κ}

omit [DecidableEq κ] [DecidableEq ι]

/-- There are identifiers under the key, and all of them are among `I`. -/
def Emptied (under : ι → κ → Prop) (I : ι → Prop) (k : κ) : Prop := (∃ i, under i k) ∧ ∀ i, under i k → I i

theorem not_emptied (h : ∀ i, under i k → ¬ I i) : ¬ Emptied under I k := by
  rintro ⟨⟨i, hi⟩, hall⟩
  exact h i hi (hall i hi)

theorem emptied_congr (hu : ∀ i, under i k ↔ under' i k) (h : ∀ i, under i k → (I i ↔ J i)) :
    Emptied under I k ↔ Emptied under' J k := by
  unfold Emptied
  refine and_congr (exists_congr hu) (forall_congr' fun i => ?_)
  rw [← hu i]
  exact forall_congr' fun hi => h i hi

/-- One removal after the other. -/
theorem emptied_or :
    Emptied under (fun i => I i ∨ J i) k ↔ Emptied under I k ∨ Emptied (fun i k => under i k ∧ ¬ I i) J k := by
  constructor
  · rintro ⟨⟨i, hi⟩, hall⟩
    by_cases hI : ∀ i, under i k → I i
    · exact .inl ⟨⟨i, hi⟩, hI⟩
    · right
      obtain ⟨l, hl⟩ := not_forall.mp hI
      obtain ⟨hl, hIl⟩ := Classical.not_imp.mp hl
      exact ⟨⟨l, hl, hIl⟩, fun m hm => (hall m hm.1).resolve_left hm.2⟩
  · rintro (⟨hex, hall⟩ | ⟨⟨i, hi, -⟩, hall⟩)
    · exact ⟨hex, fun l hl => .inl (hall l hl)⟩
    · refine ⟨⟨i, hi⟩, fun l hl => ?_⟩
      by_cases hI : I l
      · exact .inl hI
      · exact .inr (hall l ⟨hl, hI⟩)

end Emptied

/-- The removal of one identifier empties its own key, when it is the last one there. -/
theorem emptied_iff {ix : Index κ ι ν} (ho : ∀ i k, ix.owner.get? i = some k ↔ ((ix.bucket k).get? i).isSome) {i : ι}
    {k k' : κ} (hi : ix.owner.get? i = some k) :
    Emptied (fun i k => ix.owner.get? i = some k) (fun i' => i' = i) k' ↔
      k' = k ∧ ((ix.bucket k).erase i).isEmpty = true := by
  constructor
  · rintro ⟨⟨m, hm⟩, hall⟩
    obtain rfl := hall m hm
    obtain rfl := Option.some.inj (hm.symm.trans hi)
    refine ⟨rfl, Dict.isEmpty_iff.mpr fun l => ?_⟩
    rw [Dict.get?_erase]
    split_ifs with hl
    · rfl
    · cases hv : (ix.bucket k').get? l with
      | none => rfl
      | some v => exact absurd (hall l ((ho l k').mpr (by rw [hv]; rfl))) hl
  · rintro ⟨rfl, he⟩
    refine ⟨⟨i, hi⟩, fun l hl => by_contra fun hne => ?_⟩
    have hn := Dict.isEmpty_iff.mp he l
    rw [Dict.get?_erase_ne _ hne] at hn
    have hs := (ho l k').mp hl
    rw [hn] at hs
    contradiction

end Index
