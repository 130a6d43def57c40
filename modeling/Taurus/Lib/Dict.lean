import Mathlib.Data.List.Induction
import Mathlib.Data.List.Nodup

namespace taurus.lib

/-- An insertion-ordered association list, as a Python dict. -/
abbrev Dict (κ β : Type) := List (κ × β)

namespace Dict

variable {κ β γ : Type} [DecidableEq κ]

def get? : Dict κ β → κ → Option β
  | [], _ => none
  | (k', v) :: rest, k => if k' = k then some v else get? rest k

def contains (d : Dict κ β) (k : κ) : Bool := (get? d k).isSome

/-- `d[k] = v`: replaced in place when present, else appended. -/
def set : Dict κ β → κ → β → Dict κ β
  | [], k, v => [(k, v)]
  | (k', v') :: rest, k, v => if k' = k then (k', v) :: rest else (k', v') :: set rest k v

/-- `d.setdefault(k, v)` -/
def setdefault (d : Dict κ β) (k : κ) (v : β) : Dict κ β :=
  match get? d k with
  | some _ => d
  | none => d ++ [(k, v)]

/-- `d.update(other)` -/
def update (d other : Dict κ β) : Dict κ β := other.foldl (fun acc kv => set acc kv.1 kv.2) d

/-- `d.pop(k, None)` -/
def erase (d : Dict κ β) (k : κ) : Dict κ β := d.filter (·.1 ≠ k)

/-- `d.setdefault(key(x), []).append(value(x))` for every element. -/
def group {α : Type} (key : α → κ) (value : α → β) (xs : List α) : Dict κ (List β) :=
  xs.foldl (fun d x => set d (key x) ((get? d (key x)).getD [] ++ [value x])) []

@[simp] theorem get?_nil (k : κ) : get? ([] : Dict κ β) k = none := rfl

theorem get?_cons (k' : κ) (v : β) (rest : Dict κ β) (k : κ) :
    get? ((k', v) :: rest) k = if k' = k then some v else get? rest k := rfl

@[simp] theorem get?_set_self (d : Dict κ β) (k : κ) (v : β) : get? (set d k v) k = some v := by
  induction d with
  | nil => simp [set, get?_cons]
  | cons p rest ih =>
    obtain ⟨k', v'⟩ := p
    by_cases h : k' = k <;> simp [set, get?_cons, h, ih]

@[simp] theorem get?_set_ne (d : Dict κ β) {k k₂ : κ} (v : β) (h : k ≠ k₂) :
    get? (set d k v) k₂ = get? d k₂ := by
  induction d with
  | nil => simp [set, get?_cons, h]
  | cons p rest ih =>
    obtain ⟨k', v'⟩ := p
    by_cases h' : k' = k
    · subst h'
      simp [set, get?_cons, h]
    · simp [set, get?_cons, h', ih]

theorem get?_set (d : Dict κ β) (k k₂ : κ) (v : β) :
    get? (set d k v) k₂ = if k = k₂ then some v else get? d k₂ := by
  by_cases h : k = k₂
  · subst h
    simp
  · simp [h]

theorem get?_erase (d : Dict κ β) (k k₂ : κ) :
    get? (erase d k) k₂ = if k₂ = k then none else get? d k₂ := by
  induction d with
  | nil => simp [erase]
  | cons p rest ih =>
    obtain ⟨k', v'⟩ := p
    unfold erase at ih ⊢
    by_cases hk : k' = k
    · subst hk
      rw [List.filter_cons_of_neg (by simp), ih, get?_cons]
      by_cases hk₂ : k' = k₂
      · rw [if_pos hk₂.symm, if_pos hk₂.symm]
      · rw [if_neg (Ne.symm hk₂), if_neg (Ne.symm hk₂), if_neg hk₂]
    · rw [List.filter_cons_of_pos (by simp [hk]), get?_cons, get?_cons, ih]
      split <;> simp_all

theorem get?_filter (d : Dict κ β) (p : κ → Bool) (k : κ) :
    get? (d.filter fun kv => p kv.1) k = if p k = true then get? d k else none := by
  induction d with
  | nil => simp
  | cons kv rest ih =>
    obtain ⟨k', v⟩ := kv
    rw [List.filter_cons, get?_cons]
    by_cases hk : k' = k
    · subst hk
      cases hk' : p k' <;> simp [hk', ih, get?_cons]
    · cases hk' : p k' <;> simp [hk, ih, get?_cons]

theorem get?_append (d d' : Dict κ β) (k : κ) :
    get? (d ++ d') k = (get? d k).or (get? d' k) := by
  induction d with
  | nil => simp
  | cons p rest ih =>
    obtain ⟨k', v⟩ := p
    by_cases h : k' = k <;> simp [get?_cons, h, ih]

theorem get?_setdefault (d : Dict κ β) (k k₂ : κ) (v : β) :
    get? (setdefault d k v) k₂ = (get? d k₂).or (if k = k₂ then some v else none) := by
  unfold setdefault
  cases h : get? d k with
  | some w =>
    by_cases hk : k = k₂
    · subst hk
      simp [h]
    · simp [hk]
  | none =>
    rw [get?_append]
    simp [get?_cons]

theorem get?_eq_none_iff (d : Dict κ β) (k : κ) : get? d k = none ↔ k ∉ d.map (·.1) := by
  induction d with
  | nil => simp
  | cons p rest ih =>
    obtain ⟨k', v⟩ := p
    by_cases h : k' = k
    · simp [get?_cons, h]
    · simp [get?_cons, h, Ne.symm h, ih]

theorem mem_of_get? {d : Dict κ β} {k : κ} {v : β} (h : get? d k = some v) : (k, v) ∈ d := by
  induction d with
  | nil => cases h
  | cons p rest ih =>
    rw [get?_cons] at h
    split_ifs at h with hk
    · obtain rfl := Option.some.inj h
      exact hk ▸ List.mem_cons_self
    · exact List.mem_cons_of_mem _ (ih h)

theorem contains_iff (d : Dict κ β) (k : κ) : contains d k = true ↔ k ∈ d.map (·.1) := by
  rw [contains, Option.isSome_iff_ne_none, Ne, get?_eq_none_iff, not_not]

/-- A new key is appended. -/
theorem set_of_get?_eq_none {d : Dict κ β} {k : κ} (v : β) (h : get? d k = none) :
    set d k v = d ++ [(k, v)] := by
  induction d with
  | nil => rfl
  | cons p rest ih =>
    obtain ⟨k', v'⟩ := p
    rw [get?_cons] at h
    split_ifs at h with hk
    rw [set, if_neg hk, ih h]
    rfl

/-- Of two values for a key the later one stays. -/
theorem get?_update (d other : Dict κ β) (k : κ) (hother : (other.map (·.1)).Nodup) :
    get? (update d other) k = (get? other k).or (get? d k) := by
  induction other generalizing d with
  | nil => rfl
  | cons p rest ih =>
    obtain ⟨k', v⟩ := p
    rw [List.map_cons, List.nodup_cons] at hother
    change get? (update (set d k' v) rest) k = _
    rw [ih (set d k' v) hother.2, get?_set, get?_cons]
    by_cases h : k' = k
    · subst h
      rw [if_pos rfl, if_pos rfl, (get?_eq_none_iff rest k').mpr hother.1]
      rfl
    · rw [if_neg h, if_neg h]

/-- Setting a key adds nothing but its own entry. -/
theorem mem_of_mem_set {d : Dict κ β} {k : κ} {v : β} {kv : κ × β} (h : kv ∈ set d k v) :
    kv = (k, v) ∨ kv ∈ d := by
  induction d with
  | nil => exact Or.inl (List.mem_singleton.mp h)
  | cons p rest ih =>
    obtain ⟨k', v'⟩ := p
    unfold set at h
    split_ifs at h with hk
    · subst hk
      obtain rfl | h := List.mem_cons.mp h
      · exact Or.inl rfl
      · exact Or.inr (List.mem_cons_of_mem _ h)
    · obtain rfl | h := List.mem_cons.mp h
      · exact Or.inr List.mem_cons_self
      · exact (ih h).imp_right (List.mem_cons_of_mem _)

theorem mem_keys_set_iff {d : Dict κ β} {k k₂ : κ} {v : β} :
    k₂ ∈ (set d k v).map (·.1) ↔ k₂ = k ∨ k₂ ∈ d.map (·.1) := by
  rw [← contains_iff, ← contains_iff, contains, contains, get?_set]
  by_cases h : k = k₂
  · simp [h]
  · simp [h, Ne.symm h]

theorem nodup_keys_set {d : Dict κ β} (h : (d.map (·.1)).Nodup) (k : κ) (v : β) :
    ((set d k v).map (·.1)).Nodup := by
  induction d with
  | nil => exact List.nodup_singleton k
  | cons p rest ih =>
    obtain ⟨k', v'⟩ := p
    obtain ⟨hnew, hrest⟩ := List.nodup_cons.mp h
    unfold set
    split_ifs with hk
    · exact List.nodup_cons.mpr ⟨hnew, hrest⟩
    · refine List.nodup_cons.mpr ⟨fun hmem => ?_, ih hrest⟩
      exact (mem_keys_set_iff.mp hmem).elim hk hnew

section group

variable {α : Type} {key : α → κ} {value : α → β} {xs : List α}

theorem group_concat (xs : List α) (x : α) : group key value (xs ++ [x]) =
    set (group key value xs) (key x) ((get? (group key value xs) (key x)).getD [] ++ [value x]) :=
  List.foldl_concat _ _ _ _

theorem nodup_keys_group (xs : List α) : ((group key value xs).map (·.1)).Nodup := by
  induction xs using List.reverseRecOn with
  | nil => exact List.nodup_nil
  | append_singleton xs x ih =>
    rw [group_concat]
    exact nodup_keys_set ih _ _

theorem get?_group (k : κ) :
    (get? (group key value xs) k).getD [] = (xs.filter (key · = k)).map value := by
  induction xs using List.reverseRecOn with
  | nil => rfl
  | append_singleton xs x ih =>
    rw [group_concat, get?_set, List.filter_append, List.map_append, ← ih]
    by_cases h : key x = k
    · simp [h]
    · simp [h]

theorem get?_of_mem {d : Dict κ β} (h : (d.map (·.1)).Nodup) {p : κ × β} (hp : p ∈ d) :
    get? d p.1 = some p.2 := by
  induction d with
  | nil => cases hp
  | cons q rest ih =>
    obtain ⟨k, v⟩ := q
    obtain ⟨hnew, hrest⟩ := List.nodup_cons.mp h
    rw [get?_cons]
    obtain rfl | hp := List.mem_cons.mp hp
    · exact if_pos rfl
    · rw [if_neg fun heq => hnew (List.mem_map.mpr ⟨p, hp, heq.symm⟩), ih hrest hp]

/-- The entries are the elements with each key, in order. -/
theorem mem_group {p : κ × List β} (hp : p ∈ group key value xs) :
    p.2 = (xs.filter (key · = p.1)).map value := by
  rw [← get?_group, get?_of_mem (nodup_keys_group xs) hp]
  rfl

theorem exists_mem_group {x : α} (hx : x ∈ xs) :
    (key x, (xs.filter (key · = key x)).map value) ∈ group key value xs := by
  have hget : (get? (group key value xs) (key x)).getD [] = (xs.filter (key · = key x)).map value :=
    get?_group (key x)
  cases h : get? (group key value xs) (key x) with
  | none =>
    rw [h] at hget
    have hmem : value x ∈ (xs.filter (key · = key x)).map value :=
      List.mem_map_of_mem (List.mem_filter.mpr ⟨hx, decide_eq_true rfl⟩)
    rw [← hget] at hmem
    cases hmem
  | some ys =>
    rw [h] at hget
    rw [← hget]
    exact mem_of_get? h

end group

end Dict

end taurus.lib
