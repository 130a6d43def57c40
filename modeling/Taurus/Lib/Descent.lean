import Mathlib.Data.List.Chain
import Taurus.Lib.Digraph

/-! Depth-first descent along links by a recursion without a record of what was visited. -/

namespace taurus.lib.digraph

variable {α : Type} [DecidableEq α] {links : List (α × α)} {a b c : α}

/-- All targets below `a` are appended in depth-first order; none when the calls nest
deeper than `depth`. -/
def gather (links : List (α × α)) : Nat → α → List α → Option (List α)
  | 0, _, _ => none
  | depth + 1, a, found =>
    (succ links a).foldlM (fun found b => gather links depth b (found ++ [b])) found

omit [DecidableEq α] in
theorem foldlM_eq_none_of_mem {f : List α → α → Option (List α)} {bs : List α} (hb : b ∈ bs)
    (hnone : ∀ found, f found b = none) (found : List α) : bs.foldlM f found = none := by
  induction bs generalizing found with
  | nil => cases hb
  | cons c rest ih =>
    rw [List.foldlM_cons]
    obtain rfl | hrest := List.mem_cons.mp hb
    · rw [hnone]
      rfl
    · cases f found c with
      | none => rfl
      | some next => exact ih hrest next

/-- Below a chain of links that is too long there is no result. -/
theorem gather_eq_none {depth : Nat} {chain : List α}
    (hchain : List.IsChain (Link links) (a :: chain)) (hlong : depth ≤ chain.length)
    (found : List α) : gather links depth a found = none := by
  induction depth generalizing a chain found with
  | zero => rfl
  | succ depth ih =>
    cases chain with
    | nil => simp at hlong
    | cons b rest =>
      rw [List.isChain_cons_cons] at hchain
      refine foldlM_eq_none_of_mem (mem_succ.mpr hchain.1) (fun found => ih hchain.2 ?_ _) found
      rw [List.length_cons] at hlong
      omega

omit [DecidableEq α] in
/-- Turns that append what lies below their element. -/
theorem foldlM_append {f : List α → α → Option (List α)} {Below : α → α → Prop} {bs : List α}
    (h : ∀ b ∈ bs, ∃ more, (∀ found, f found b = some (found ++ more)) ∧ ∀ c,
      c ∈ more ↔ Below b c) :
    ∃ more, (∀ found, bs.foldlM f found = some (found ++ more)) ∧ ∀ c, c ∈ more ↔
      ∃ b ∈ bs, Below b c := by
  induction bs with
  | nil => exact ⟨[], fun found => by simp, by simp⟩
  | cons b rest ih =>
    obtain ⟨hb, hrest⟩ := List.forall_mem_cons.mp h
    obtain ⟨first, hfirst, hmem⟩ := hb
    obtain ⟨more, hmore, hmem'⟩ := ih hrest
    refine ⟨first ++ more, fun found => ?_, fun c => ?_⟩
    · rw [List.foldlM_cons, hfirst, ← List.append_assoc]
      exact hmore _
    · rw [List.mem_append, hmem, hmem', List.exists_mem_cons_iff]

/-- Where all chains are shorter, exactly what is reached by links is appended. -/
theorem gather_spec {depth : Nat}
    (hshort : ∀ chain, List.IsChain (Link links) (a :: chain) → chain.length < depth) :
    ∃ below, (∀ found, gather links depth a found = some (found ++ below)) ∧
      ∀ c, c ∈ below ↔ Relation.TransGen (Link links) a c := by
  induction depth generalizing a with
  | zero => exact absurd (hshort [] (List.isChain_singleton a)) (Nat.not_lt_zero _)
  | succ depth ih =>
    have hturn : ∀ b ∈ succ links a, ∃ more,
      (∀ found, gather links depth b (found ++ [b]) = some (found ++ more)) ∧
        ∀ c, c ∈ more ↔ Reaches links b c := by
      intro b hb
      obtain ⟨below, hbelow, hmem⟩ := ih (a := b) fun chain hchain => by
        have hlength := hshort (b :: chain) (List.isChain_cons_cons.mpr ⟨mem_succ.mp hb, hchain⟩)
        rw [List.length_cons] at hlength
        omega
      refine ⟨b :: below, fun found => ?_, fun c => ?_⟩
      · rw [hbelow, List.append_assoc]
        rfl
      · rw [List.mem_cons, hmem, Reaches, Relation.reflTransGen_iff_eq_or_transGen]
    obtain ⟨more, hmore, hmem⟩ := foldlM_append hturn
    refine ⟨more, hmore, fun c => ?_⟩
    rw [hmem, Relation.TransGen.head'_iff]
    simp only [mem_succ]
    rfl

/-- The recursion comes to an end exactly if its depth is greater than the length of
every chain of links. -/
theorem gather_isSome_iff (links : List (α × α)) (depth : Nat) (a : α) (found : List α) :
    (∃ result, gather links depth a found = some result) ↔
      ∀ chain, List.IsChain (Link links) (a :: chain) → chain.length < depth := by
  constructor
  · rintro ⟨result, hresult⟩ chain hchain
    by_contra hlong
    rw [gather_eq_none hchain (Nat.le_of_not_lt hlong)] at hresult
    cases hresult
  · intro hshort
    obtain ⟨below, hbelow, -⟩ := gather_spec hshort
    exact ⟨_, hbelow found⟩

omit [DecidableEq α] in
/-- Into a cycle there are chains of any length. -/
theorem exists_chain_of_cycle (hreach : Reaches links a c)
    (hcycle : Relation.TransGen (Link links) c c) (n : Nat) :
    ∃ chain, List.IsChain (Link links) (a :: chain) ∧ n ≤ chain.length := by
  induction n generalizing a with
  | zero => exact ⟨[], List.isChain_singleton a, Nat.zero_le _⟩
  | succ n ih =>
    obtain ⟨b, hlink, hrest⟩ :=
      Relation.TransGen.head'_iff.mp (Relation.TransGen.trans_right hreach hcycle)
    obtain ⟨chain, hchain, hlength⟩ := ih hrest
    exact ⟨b :: chain, List.isChain_cons_cons.mpr ⟨hlink, hchain⟩, Nat.succ_le_succ hlength⟩

end taurus.lib.digraph
