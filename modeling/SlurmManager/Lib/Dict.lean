import Mathlib.Data.List.Nodup
import Mathlib.Data.List.Perm.Basic

/-!
# Dict — finite maps that remember their insertion order

A `Dict κ ν` is an association list whose keys are pairwise different; the field `nodup` carries
this, so no later proof states it again.  Assignment overwrites in place when the key is present and
appends when it is not, as the dictionaries of scripting languages do (`AList.insert` moves the key
to the front, so walking an `AList` would give another order).

* `get?_set`, `get?_erase`, `get?_mapValues`: what a lookup returns after each update.
* `mem_entries_iff`: the entries are exactly the successful lookups.
* `entries_filter_key`: a walk over a dictionary meets each key once.
* `All`, `Nested`: a property of every entry, kept by every update with entries that have it.
-/

/-- Insertion-ordered finite map; no key occurs twice. -/
structure Dict (κ ν : Type) where
  entries : List (κ × ν)
  nodup : (entries.map Prod.fst).Nodup

namespace Dict

variable {κ ν μ : Type}

instance : EmptyCollection (Dict κ ν) := ⟨⟨[], List.nodup_nil⟩⟩

/-- The keys, in insertion order. -/
def keys (d : Dict κ ν) : List κ := d.entries.map Prod.fst

/-- The values, in insertion order. -/
def values (d : Dict κ ν) : List ν := d.entries.map Prod.snd

def isEmpty (d : Dict κ ν) : Bool := d.entries.isEmpty

/-- Apply `f` to every entry, keeping keys and order. -/
def mapValues (d : Dict κ ν) (f : κ → ν → μ) : Dict κ μ where
  entries := d.entries.map fun e => (e.1, f e.1 e.2)
  nodup := by simpa [List.map_map, Function.comp_def] using d.nodup

variable [DecidableEq κ]

/-- `d.get(k)`. -/
def get? (d : Dict κ ν) (k : κ) : Option ν := d.entries.lookup k

/-- `d.pop(k, None)`, without the popped value. -/
def erase (d : Dict κ ν) (k : κ) : Dict κ ν where
  entries := d.entries.filter fun e => e.1 ≠ k
  nodup := d.nodup.sublist (List.filter_sublist.map _)

/-- `d[k] = v`: overwrite in place, or append a new key. -/
def set (d : Dict κ ν) (k : κ) (v : ν) : Dict κ ν :=
  if h : k ∈ d.keys then
    { entries := d.entries.map fun e => (e.1, if e.1 = k then v else e.2)
      nodup := by simpa [List.map_map, Function.comp_def] using d.nodup }
  else
    { entries := d.entries ++ [(k, v)]
      nodup := by
        rw [List.map_append]
        refine List.Nodup.append d.nodup (by simp) ?_
        intro x hx hx'
        have : x = k := by simpa using hx'
        exact h (this ▸ hx) }

/-- Pop every key of a list. -/
def eraseAll (d : Dict κ ν) (ks : List κ) : Dict κ ν := ks.foldl erase d

/-- Change the value of `k`, if there is one. -/
def modify (d : Dict κ ν) (k : κ) (f : ν → ν) : Dict κ ν :=
  match d.get? k with
  | none => d
  | some v => d.set k (f v)

/-- The dictionary with one entry. -/
def single (k : κ) (v : ν) : Dict κ ν := (∅ : Dict κ ν).set k v

/-- The dictionary of a list of assignments, in order. -/
def ofList (l : List (κ × ν)) : Dict κ ν := l.foldl (fun d e => d.set e.1 e.2) ∅

/-! ## Lookups -/

section Lookup

@[simp] theorem get?_empty (k : κ) : (∅ : Dict κ ν).get? k = none := rfl

theorem lookup_cons_ite (e : κ × ν) (l : List (κ × ν)) (k : κ) :
    (e :: l).lookup k = if k = e.1 then some e.2 else l.lookup k := by
  rw [List.lookup_cons]
  by_cases h : k = e.1
  · simp [h]
  · rw [beq_eq_false_iff_ne.mpr h, if_neg h]

theorem mem_keys_iff {d : Dict κ ν} {k : κ} : k ∈ d.keys ↔ (d.get? k).isSome := by
  simp [keys, get?]

theorem get?_eq_none_iff {d : Dict κ ν} {k : κ} : d.get? k = none ↔ k ∉ d.keys := by
  rw [mem_keys_iff]; simp

/-- The entries of a dictionary are its successful lookups. -/
theorem mem_entries_iff {d : Dict κ ν} {k : κ} {v : ν} :
    (k, v) ∈ d.entries ↔ d.get? k = some v := by
  obtain ⟨l, hl⟩ := d
  simp only [get?]
  induction l with
  | nil => simp
  | cons e l ih =>
    obtain ⟨k', v'⟩ := e
    simp only [List.map_cons, List.nodup_cons] at hl
    rw [List.mem_cons, lookup_cons_ite]
    by_cases hk : k = k'
    · subst hk
      have hnot : (k, v) ∉ l := fun h => hl.1 (List.mem_map.mpr ⟨_, h, rfl⟩)
      simp [hnot, eq_comm]
    · simp [hk, ih hl.2]

theorem mem_values_iff {d : Dict κ ν} {v : ν} : v ∈ d.values ↔ ∃ k, d.get? k = some v := by
  simp only [values, List.mem_map, Prod.exists, exists_eq_right, mem_entries_iff]

/-- Entries that share what they are selected by are one entry. -/
theorem length_filter_values_le_one {d : Dict κ ν} {p : ν → Bool}
    (h : ∀ k k' v v', d.get? k = some v → d.get? k' = some v' → p v = true → p v' = true → k = k') :
    (d.values.filter p).length ≤ 1 := by
  have hsub := List.filter_sublist (p := fun e => p e.2) (l := d.entries)
  have hnodup := d.nodup.sublist (hsub.map Prod.fst)
  have hmem : ∀ e ∈ d.entries.filter (fun e => p e.2), d.get? e.1 = some e.2 ∧ p e.2 = true := fun e he =>
    ⟨mem_entries_iff.mp (List.mem_filter.mp he).1, (List.mem_filter.mp he).2⟩
  have hmap : d.values.filter p = (d.entries.filter fun e => p e.2).map Prod.snd := by
    rw [values, List.filter_map]
    rfl
  rw [hmap, List.length_map]
  cases hl : d.entries.filter fun e => p e.2 with
  | nil => simp
  | cons e l =>
    cases l with
    | nil => simp
    | cons e' l =>
      rw [hl] at hnodup hmem
      obtain ⟨hk, hp⟩ := hmem e List.mem_cons_self
      obtain ⟨hk', hp'⟩ := hmem e' (List.mem_cons_of_mem _ List.mem_cons_self)
      have heq := h e.1 e'.1 e.2 e'.2 hk hk' hp hp'
      simp [heq] at hnodup

theorem isEmpty_iff {d : Dict κ ν} : d.isEmpty = true ↔ ∀ k, d.get? k = none := by
  constructor
  · intro h k
    have : d.entries = [] := by simpa [isEmpty] using h
    simp [get?, this]
  · intro h
    cases hd : d.entries with
    | nil => simp [isEmpty, hd]
    | cons e l =>
      have hmem : (e.1, e.2) ∈ d.entries := by simp [hd]
      rw [mem_entries_iff, h] at hmem
      simp at hmem

theorem isEmpty_eq_false_iff {d : Dict κ ν} :
    d.isEmpty = false ↔ ∃ k v, d.get? k = some v := by
  rw [← Bool.not_eq_true, isEmpty_iff, not_forall]
  simp only [Option.ne_none_iff_exists', ← ne_eq]

/-- Two lookups in one key agree. -/
theorem get?_inj {d : Dict κ ν} {k : κ} {v w : ν} (h : d.get? k = some v)
    (h' : d.get? k = some w) : v = w := Option.some.inj (h.symm.trans h')

end Lookup

/-! ## Updates -/

section Update

theorem lookup_map_snd (f : κ → ν → μ) (k : κ) :
    ∀ l : List (κ × ν), (l.map fun e => (e.1, f e.1 e.2)).lookup k = (l.lookup k).map (f k)
  | [] => rfl
  | e :: l => by
    rw [List.map_cons, lookup_cons_ite, lookup_cons_ite, lookup_map_snd f k l]
    by_cases h : k = e.1 <;> simp [h]

@[simp] theorem get?_mapValues (d : Dict κ ν) (f : κ → ν → μ) (k : κ) :
    (d.mapValues f).get? k = (d.get? k).map (f k) := lookup_map_snd f k d.entries

theorem get?_set (d : Dict κ ν) (k k' : κ) (v : ν) :
    (d.set k v).get? k' = if k' = k then some v else d.get? k' := by
  unfold set
  split_ifs with hk h h
  · subst h
    have hs : (d.get? k').isSome := mem_keys_iff.mp hk
    obtain ⟨w, hw⟩ := Option.isSome_iff_exists.mp hs
    show (d.entries.map fun e => (e.1, if e.1 = k' then v else e.2)).lookup k' = _
    rw [lookup_map_snd (fun a b => if a = k' then v else b)]
    simp only [get?] at hw
    simp [hw]
  · show (d.entries.map fun e => (e.1, if e.1 = k then v else e.2)).lookup k' = _
    rw [lookup_map_snd (fun a b => if a = k then v else b)]
    simp [h, get?]
  · subst h
    have hn : d.entries.lookup k' = none := get?_eq_none_iff.mpr hk
    show (d.entries ++ [(k', v)]).lookup k' = _
    rw [List.lookup_append, hn]; simp
  · show (d.entries ++ [(k, v)]).lookup k' = _
    rw [List.lookup_append, lookup_cons_ite, if_neg h]; simp [get?]

theorem entries_set_of_notMem {d : Dict κ ν} {k : κ} (h : k ∉ d.keys) (v : ν) :
    (d.set k v).entries = d.entries ++ [(k, v)] := by
  rw [set, dif_neg h]

/-- Assignments to different keys are listed as they are made. -/
theorem entries_ofList {l : List (κ × ν)} (h : (l.map Prod.fst).Nodup) : (ofList l).entries = l := by
  have hfold : ∀ (l : List (κ × ν)) (d : Dict κ ν), (d.keys ++ l.map Prod.fst).Nodup →
      (l.foldl (fun d e => d.set e.1 e.2) d).entries = d.entries ++ l := by
    intro l
    induction l with
    | nil =>
      intro d _
      exact (List.append_nil _).symm
    | cons e l ih =>
      intro d hd
      have hnot : e.1 ∉ d.keys := fun he => (List.nodup_append.mp hd).2.2 e.1 he e.1 (by simp) rfl
      have hset := entries_set_of_notMem hnot e.2
      have hkeys : (d.set e.1 e.2).keys = d.keys ++ [e.1] := by
        rw [keys, hset, List.map_append]
        rfl
      rw [List.foldl_cons, ih _ (by rw [hkeys, List.append_assoc]; exact hd), hset, List.append_assoc]
      rfl
  exact hfold l ∅ h

@[simp] theorem get?_set_self (d : Dict κ ν) (k : κ) (v : ν) : (d.set k v).get? k = some v := by
  simp [get?_set]

theorem get?_set_ne (d : Dict κ ν) {k k' : κ} (v : ν) (h : k' ≠ k) :
    (d.set k v).get? k' = d.get? k' := by simp [get?_set, h]

theorem get?_modify (d : Dict κ ν) (k k' : κ) (f : ν → ν) :
    (d.modify k f).get? k' = if k' = k then (d.get? k).map f else d.get? k' := by
  unfold modify
  cases hk : d.get? k with
  | none =>
    split_ifs with h
    · rw [h, hk]; rfl
    · rfl
  | some v => simp [get?_set]

@[simp] theorem get?_single (k k' : κ) (v : ν) :
    (single k v).get? k' = if k' = k then some v else none := by simp [single, get?_set]

theorem get?_erase (d : Dict κ ν) (k k' : κ) :
    (d.erase k).get? k' = if k' = k then none else d.get? k' := by
  obtain ⟨l, hl⟩ := d
  simp only [erase, get?]
  clear hl
  induction l with
  | nil => simp
  | cons e l ih =>
    by_cases he : e.1 = k
    · rw [List.filter_cons_of_neg (by simpa using he), ih, lookup_cons_ite, he]
      by_cases h : k' = k <;> simp [h]
    · rw [List.filter_cons_of_pos (by simpa using he), lookup_cons_ite, lookup_cons_ite, ih]
      by_cases h : k' = e.1
      · simp [h, he]
      · simp [h]

@[simp] theorem get?_erase_self (d : Dict κ ν) (k : κ) : (d.erase k).get? k = none := by
  simp [get?_erase]

theorem get?_erase_ne (d : Dict κ ν) {k k' : κ} (h : k' ≠ k) :
    (d.erase k).get? k' = d.get? k' := by simp [get?_erase, h]

theorem get?_eraseAll (ks : List κ) (d : Dict κ ν) (k : κ) :
    (d.eraseAll ks).get? k = if k ∈ ks then none else d.get? k := by
  induction ks generalizing d with
  | nil => simp [eraseAll]
  | cons k' ks ih =>
    show ((d.erase k').eraseAll ks).get? k = _
    rw [ih, get?_erase]
    by_cases h : k = k' <;> by_cases h' : k ∈ ks <;> simp [h, h']

theorem erase_of_get?_eq_none {d : Dict κ ν} {k : κ} (h : d.get? k = none) : d.erase k = d := by
  obtain ⟨l, hl⟩ := d
  have hk : k ∉ l.map Prod.fst := get?_eq_none_iff.mp h
  simp only [erase, mk.injEq, List.filter_eq_self]
  intro e he
  simpa using fun hek : e.1 = k => hk (hek ▸ List.mem_map_of_mem he)

omit [DecidableEq κ] in
theorem ext_entries {d d' : Dict κ ν} (h : d.entries = d'.entries) : d = d' := by
  cases d; cases d'; simpa using h

/-- A value written just before its key is popped does not matter. -/
theorem erase_set_self (d : Dict κ ν) (k : κ) (v : ν) : (d.set k v).erase k = d.erase k := by
  apply ext_entries
  unfold set
  split_ifs with hk
  · simp only [erase, List.filter_map]
    rw [List.map_congr_left (g := id) fun e he => ?_, List.map_id]
    · rfl
    · have hne : e.1 ≠ k := by simpa using (List.mem_filter.mp he).2
      simp [hne]
  · simp [erase, List.filter_append]

/-- A walk over the entries meets each key once. -/
theorem entries_filter_key (d : Dict κ ν) (k : κ) :
    d.entries.filter (fun e => e.1 = k) = ((d.get? k).map fun v => (k, v)).toList := by
  obtain ⟨l, hl⟩ := d
  simp only [get?]
  induction l with
  | nil => simp
  | cons e l ih =>
    obtain ⟨k', v'⟩ := e
    simp only [List.map_cons, List.nodup_cons] at hl
    rw [lookup_cons_ite]
    by_cases hk : k' = k
    · subst hk
      have hrest : l.filter (fun e => e.1 = k') = [] := by
        rw [List.filter_eq_nil_iff]
        intro e he
        simpa using fun h : e.1 = k' => hl.1 (h ▸ List.mem_map_of_mem he)
      simp [hrest]
    · have hk' : k ≠ k' := Ne.symm hk
      simp [hk, hk', ih hl.2]

/-- A walk over the values to which one entry contributes. -/
theorem flatMap_values_eq {β : Type} {d : Dict κ ν} {g : ν → List β} {k : κ} {v : ν} (hk : d.get? k = some v)
    (hg : ∀ k' w, d.get? k' = some w → k' ≠ k → g w = []) : d.values.flatMap g = g v := by
  have hwalk : ∀ l : List (κ × ν), (∀ e ∈ l, e.1 ≠ k → g e.2 = []) →
      l.flatMap (fun e => g e.2) = (l.filter fun e => e.1 = k).flatMap fun e => g e.2 := by
    intro l hl
    induction l with
    | nil => rfl
    | cons e l ih =>
      have hrest := ih fun e' he' => hl e' (List.mem_cons_of_mem _ he')
      by_cases hek : e.1 = k
      · simp [hek, hrest]
      · simp [hek, hrest, hl e List.mem_cons_self hek]
  rw [values, List.flatMap_map, hwalk d.entries fun e he => hg e.1 e.2 (mem_entries_iff.mp he), entries_filter_key, hk]
  simp

end Update

/-! ## Dictionaries of dictionaries -/

section Nested

variable {ι : Type} [DecidableEq ι]

/-- Every entry satisfies `ok`. -/
def All (ok : κ → ν → Prop) (d : Dict κ ν) : Prop := ∀ k v, d.get? k = some v → ok k v

/-- Every entry of every inner dictionary satisfies `ok`. -/
def Nested (ok : κ → ι → ν → Prop) (d : Dict κ (Dict ι ν)) : Prop :=
  d.All fun k b => b.All (ok k)

variable {ok : κ → ν → Prop} {d : Dict κ ν}

theorem all_empty : (∅ : Dict κ ν).All ok := by
  intro k v h
  simp at h

theorem All.mono {ok' : κ → ν → Prop} (h : d.All ok) (hok : ∀ k v, ok k v → ok' k v) : d.All ok' :=
  fun k v hk => hok k v (h k v hk)

theorem All.set (h : d.All ok) {k : κ} {v : ν} (hv : ok k v) : (d.set k v).All ok := by
  intro k' w hw
  rw [get?_set] at hw
  split_ifs at hw with hk
  · obtain rfl := Option.some.inj hw
    exact hk ▸ hv
  · exact h k' w hw

theorem All.erase (h : d.All ok) (k : κ) : (d.erase k).All ok := by
  intro k' w hw
  rw [get?_erase] at hw
  split_ifs at hw
  exact h k' w hw

theorem All.modify (h : d.All ok) {k : κ} {f : ν → ν} (hf : ∀ v, ok k v → ok k (f v)) :
    (d.modify k f).All ok := by
  unfold Dict.modify
  cases hk : d.get? k with
  | none => exact h
  | some v => exact h.set (hf v (h k v hk))

theorem All.mapValues (h : d.All ok) {f : κ → ν → ν} (hf : ∀ k v, ok k v → ok k (f k v)) :
    (d.mapValues f).All ok := by
  intro k w hw
  rw [get?_mapValues] at hw
  obtain ⟨v, hv, rfl⟩ := Option.map_eq_some_iff.mp hw
  exact hf k v (h k v hv)

/-- An inner dictionary, empty where there is none. -/
theorem Nested.inner {ok : κ → ι → ν → Prop} {d : Dict κ (Dict ι ν)} (h : d.Nested ok) (k : κ) :
    ((d.get? k).getD ∅).All (ok k) := by
  cases hk : d.get? k with
  | none => exact all_empty
  | some b => exact h k b hk

end Nested

end Dict
