import Mathlib.Data.Finset.Card
import Mathlib.Data.List.Basic
import Mathlib.Data.List.Count
import Mathlib.Logic.Function.Basic
import Mathlib.Logic.Relation
import Mathlib.Order.WellFoundedSet

/-! Directed graphs given by a list of links, in which a link may occur more than once. -/

namespace taurus.lib.digraph

variable {α : Type} [DecidableEq α] {links : List (α × α)} {keys : List α}

def Link (links : List (α × α)) (a b : α) : Prop := (a, b) ∈ links

def Reaches (links : List (α × α)) : α → α → Prop := Relation.ReflTransGen (Link links)

def Cyclic (links : List (α × α)) : Prop := ∃ a, Relation.TransGen (Link links) a a

/-- The targets of the links from `a`, with their multiplicity. -/
def succ (links : List (α × α)) (a : α) : List α := (links.filter (·.1 = a)).map (·.2)

theorem mem_succ {a b : α} : b ∈ succ links a ↔ Link links a b := by simp [succ, Link]

omit [DecidableEq α] in
/-- From a node without links only itself is reached. -/
theorem reaches_of_sink {a b : α} (h : Reaches links a b)
    (hsink : ∀ c, ¬Link links a c) : b = a := by
  obtain heq | ⟨c, hlink, -⟩ := Relation.ReflTransGen.cases_head h
  · exact heq.symm
  · exact absurd hlink (hsink c)

omit [DecidableEq α] in
/-- Without a cycle a node without links is reached from everywhere. -/
theorem exists_sink (hclosed : ∀ a b, Link links a b → a ∈ keys ∧ b ∈ keys)
    (hacyclic : ¬Cyclic links) {a : α} (ha : a ∈ keys) :
    ∃ b ∈ keys, Reaches links a b ∧ ∀ c, ¬Link links b c := by
  let after : {k // k ∈ keys} → {k // k ∈ keys} → Prop :=
    fun b c => Relation.TransGen (Link links) c b
  have htrans : IsTrans _ after := ⟨fun _ _ _ hab hbc => hbc.trans hab⟩
  have hirrefl : Std.Irrefl after := ⟨fun b h => hacyclic ⟨b, h⟩⟩
  have hfinite : Finite {k // k ∈ keys} := keys.finite_toSet
  have hwf : WellFounded after := Finite.wellFounded_of_trans_of_irrefl after
  obtain ⟨⟨b, hb⟩, hreach, hlast⟩ :=
    hwf.has_min {k | Reaches links a k.1} ⟨⟨a, ha⟩, Relation.ReflTransGen.refl⟩
  refine ⟨b, hb, hreach, fun c hlink => ?_⟩
  exact hlast ⟨c, (hclosed b c hlink).2⟩ (hreach.tail hlink) (.single hlink)

section kahn

/-- The state of Kahn's algorithm: remaining in-degrees, the queue and the order so far. -/
structure State (α : Type) where
  remaining : α → Int
  queue : List α
  order : List α

/-- Take one link into `b` away; at in-degree zero `b` joins the queue. -/
def relax (s : State α) (b : α) : State α :=
  let d := s.remaining b - 1
  { s with remaining := Function.update s.remaining b d, queue := if d = 0 then s.queue ++ [b] else s.queue }

/-- Pop the queue until it is empty; `fuel` bounds the number of pops. -/
def drain (succ : α → List α) : Nat → State α → State α
  | 0, s => s
  | fuel + 1, s =>
    match s.queue with
    | [] => s
    | a :: rest =>
      drain succ fuel ((succ a).foldl relax { s with queue := rest, order := s.order ++ [a] })

def in_degree (links : List (α × α)) (b : α) : Nat := links.countP (·.2 = b)

def kahn (links : List (α × α)) (keys : List α) : State α :=
  drain (succ links) keys.length
    { remaining := fun b => in_degree links b, queue := keys.filter fun k => in_degree links k = 0, order := [] }

/-- Relaxing a list of targets: those whose in-degree it uses up join the queue once. -/
theorem foldl_relax (bs : List α) (s : State α) :
    ∃ zeros : List α, zeros.Nodup ∧
      (∀ b, b ∈ zeros ↔ 0 < s.remaining b ∧ s.remaining b ≤ bs.count b) ∧
      bs.foldl relax s =
        { s with remaining := fun b => s.remaining b - bs.count b, queue := s.queue ++ zeros } := by
  induction bs generalizing s with
  | nil =>
    refine ⟨[], List.nodup_nil, fun b => ?_, ?_⟩
    · simp
    · simp
  | cons a rest ih =>
    obtain ⟨zeros, hnodup, hzeros, hfold⟩ := ih (relax s a)
    have hremaining : ∀ b, (relax s a).remaining b = if b =
        a then s.remaining a - 1 else s.remaining b := by
      intro b
      simp only [relax, Function.update_apply]
    have hcount : ∀ b, ((a :: rest).count b : Int) = rest.count b + if b = a then 1 else 0 := by
      intro b
      rw [List.count_cons]
      by_cases h : b = a
      · simp [h]
      · simp [h, Ne.symm h]
    have hrest : (fun b => (relax s a).remaining b - rest.count b) = fun b =>
      s.remaining b - (a :: rest).count b := by
      funext b
      rw [hremaining, hcount]
      split_ifs with h
      · subst h
        omega
      · omega
    rw [List.foldl_cons, hfold, hrest]
    by_cases hzero : s.remaining a - 1 = 0
    · -- `a` joins the queue now and not again
      refine ⟨a :: zeros, List.nodup_cons.mpr ⟨fun hmem => ?_, hnodup⟩, fun b => ?_, ?_⟩
      · have h := ((hzeros a).mp hmem).1
        rw [hremaining, if_pos rfl] at h
        omega
      · rw [List.mem_cons, hzeros, hremaining, hcount]
        by_cases h : b = a
        · subst h
          simp only [if_true, true_or, true_iff]
          omega
        · simp [h]
      · simp [relax, hzero]
    · refine ⟨zeros, hnodup, fun b => ?_, ?_⟩
      · rw [hzeros, hremaining, hcount]
        by_cases h : b = a
        · subst h
          simp only [if_true]
          omega
        · simp [h]
      · simp [relax, hzero]

/-- What holds between two pops: the in-degrees count the links from nodes not yet in the
order, a node is queued or in the order when none is left, and sources come first. -/
structure Inv (links : List (α × α)) (keys : List α) (s : State α) : Prop where
  nodup : (s.order ++ s.queue).Nodup
  sub : ∀ b ∈ s.order ++ s.queue, b ∈ keys
  remaining : ∀ b, s.remaining b = links.countP fun l => l.2 = b ∧ l.1 ∉ s.order
  ready : ∀ b ∈ keys, s.remaining b = 0 ↔ b ∈ s.order ++ s.queue
  sources : ∀ pre b post, s.order = pre ++ b :: post → ∀ a, Link links a b → a ∈ pre

/-- The links into `b` that remain after `a` joins the order. -/
theorem countP_snoc (links : List (α × α)) {order : List α} {a : α} (b : α) (ha : a ∉ order) :
    (links.countP fun l => l.2 = b ∧ l.1 ∉ order) =
      (links.countP fun l => l.2 = b ∧ l.1 ∉ order ++ [a]) + (succ links a).count b := by
  induction links with
  | nil => simp [succ]
  | cons l rest ih =>
    obtain ⟨x, y⟩ := l
    rw [List.countP_cons, List.countP_cons, ih]
    by_cases hx : x = a
    · subst hx
      by_cases hy : y = b
      · simp [succ, ha, hy]
        omega
      · simp [succ, hy]
    · simp [succ, hx, List.mem_append]
      omega

theorem Inv.sources_of_ready {s : State α} (h : Inv links keys s) {b : α} (hb : s.remaining b = 0) :
    ∀ a, Link links a b → a ∈ s.order := by
  intro a hlink
  have hzero := h.remaining b
  rw [hb, eq_comm, Int.natCast_eq_zero, List.countP_eq_zero] at hzero
  have hnone := hzero (a, b) hlink
  simpa using hnone

/-- One pop keeps the invariant. -/
theorem Inv.pop {s : State α} (h : Inv links keys s)
    (hclosed : ∀ a b, Link links a b → b ∈ keys) {a : α} {rest : List α}
    (hqueue : s.queue = a :: rest) :
    Inv links keys ((succ links a).foldl relax
      { s with queue := rest, order := s.order ++ [a] }) := by
  obtain ⟨zeros, hnodup, hzeros, hfold⟩ :=
    foldl_relax (succ links a) { s with queue := rest, order := s.order ++ [a] }
  have hsnoc : s.order ++ s.queue = s.order ++ [a] ++ rest := by simp [hqueue]
  have hold := h.nodup
  rw [hsnoc] at hold
  have ha : a ∉ s.order := by
    have hdisjoint := (List.nodup_append.mp (List.nodup_append.mp hold).1).2.2
    exact fun hmem => hdisjoint a hmem a (List.mem_singleton_self a) rfl
  have hakeys : a ∈ keys := h.sub a (by simp [hqueue])
  have hcount : ∀ b, s.remaining b =
      (links.countP fun l => l.2 = b ∧ l.1 ∉ s.order ++ [a]) + (succ links a).count b := by
    intro b
    rw [h.remaining b, countP_snoc links b ha]
    rfl
  have hkeys : ∀ b, 0 < (succ links a).count b → b ∈ keys := by
    intro b hb
    exact hclosed a b (mem_succ.mp (List.count_pos_iff.mp hb))
  have hfresh : ∀ b ∈ zeros, b ∈ keys ∧ b ∉ s.order ++ [a] ++ rest := by
    intro b hb
    obtain ⟨hpos, hle⟩ := (hzeros b).mp hb
    simp only at hpos hle
    have hbkeys := hkeys b (by omega)
    refine ⟨hbkeys, fun hmem => ?_⟩
    rw [← hsnoc, ← h.ready b hbkeys] at hmem
    omega
  rw [hfold]
  constructor
  · show (s.order ++ [a] ++ (rest ++ zeros)).Nodup
    rw [← List.append_assoc, List.nodup_append]
    refine ⟨hold, hnodup, fun x hx y hy hxy => ?_⟩
    subst hxy
    exact (hfresh x hy).2 hx
  · intro b hb
    rw [← List.append_assoc, List.mem_append] at hb
    obtain hb | hb := hb
    · rw [← hsnoc] at hb
      exact h.sub b hb
    · exact (hfresh b hb).1
  · intro b
    have hb := hcount b
    simp only
    omega
  · intro b hb
    have hready := h.ready b hb
    have hbcount := hcount b
    have hbzeros := hzeros b
    simp only at hbzeros ⊢
    rw [hsnoc] at hready
    rw [← List.append_assoc, List.mem_append, hbzeros, ← hready]
    omega
  · intro pre b post horder c hlink
    simp only at horder
    obtain rfl | ⟨post', last, rfl⟩ := List.eq_nil_or_concat post
    · -- the node just popped
      obtain ⟨hpre, hab⟩ := List.append_inj' horder rfl
      obtain rfl : a = b := by simpa using hab
      rw [← hpre]
      exact h.sources_of_ready ((h.ready a hakeys).mpr (by simp [hqueue])) c hlink
    · have hsplit : s.order = pre ++ b :: post' := by
        have : s.order ++ [a] = (pre ++ b :: post') ++ [last] := by simpa using horder
        exact (List.append_inj' this rfl).1
      exact h.sources pre b post' hsplit c hlink

theorem Inv.length_le {s : State α} (h : Inv links keys s) :
    s.order.length + s.queue.length ≤ keys.length := by
  rw [← List.length_append]
  exact (List.subperm_of_subset h.nodup h.sub).length_le

/-- With fuel for all keys the queue runs empty. -/
theorem Inv.drain {s : State α} (h : Inv links keys s)
    (hclosed : ∀ a b, Link links a b → b ∈ keys) (fuel : Nat)
    (hfuel : keys.length ≤ s.order.length + fuel) :
    Inv links keys (drain (succ links) fuel s) ∧ (drain (succ links) fuel s).queue = [] := by
  induction fuel generalizing s with
  | zero =>
    have hle := h.length_le
    refine ⟨h, List.eq_nil_of_length_eq_zero ?_⟩
    rw [digraph.drain]
    omega
  | succ fuel ih =>
    rw [digraph.drain]
    cases hqueue : s.queue with
    | nil => exact ⟨h, hqueue⟩
    | cons a rest =>
      apply ih (h.pop hclosed hqueue)
      obtain ⟨zeros, -, -, hfold⟩ :=
        foldl_relax (succ links a) { s with queue := rest, order := s.order ++ [a] }
      rw [hfold]
      simp only [List.length_append, List.length_singleton]
      omega

theorem inv_start (hnodup : keys.Nodup) :
    Inv links keys { remaining := fun b => in_degree links b, queue := keys.filter fun k => in_degree links k = 0, order := [] } := by
  constructor
  · simpa using hnodup.filter _
  · intro b hb
    have hmem : b ∈ keys ∧ in_degree links b = 0 := by simpa using hb
    exact hmem.1
  · intro b
    simp [in_degree]
  · intro b hb
    simp [hb]
  · intro pre b post horder
    simp at horder

section

variable (hnodup : keys.Nodup) (hclosed : ∀ a b, Link links a b → a ∈ keys ∧ b ∈ keys)

include hnodup hclosed

theorem kahn_inv : Inv links keys (kahn links keys) ∧ (kahn links keys).queue = [] := by
  apply (inv_start hnodup).drain (fun a b h => (hclosed a b h).2)
  simp

theorem kahn_perm (hlength : (kahn links keys).order.length = keys.length) :
    (kahn links keys).order.Perm keys := by
  have h := (kahn_inv hnodup hclosed).1
  have hsub : (kahn links keys).order.Subperm keys :=
    List.subperm_of_subset (List.nodup_append.mp h.nodup).1 fun b hb =>
      h.sub b (List.mem_append_left _ hb)
  apply hsub.perm_of_length_le
  omega

/-- Every link goes from an earlier to a later node of a full order. -/
theorem kahn_forward (hlength : (kahn links keys).order.length = keys.length) {a b : α}
    (hlink : Link links a b) :
    (kahn links keys).order.idxOf a < (kahn links keys).order.idxOf b := by
  have h := (kahn_inv hnodup hclosed).1
  have hb : b ∈ (kahn links keys).order :=
    (kahn_perm hnodup hclosed hlength).mem_iff.mpr (hclosed a b hlink).2
  obtain ⟨pre, post, horder, hfirst⟩ := List.eq_append_cons_of_mem hb
  have ha : a ∈ pre := h.sources pre b post horder a hlink
  rw [horder, List.idxOf_append_of_mem ha, List.idxOf_append_of_notMem hfirst, List.idxOf_cons_self]
  exact List.idxOf_lt_length_of_mem ha

theorem kahn_acyclic (hlength : (kahn links keys).order.length = keys.length) : ¬Cyclic links := by
  rintro ⟨a, hcycle⟩
  have hlt : ∀ b, Relation.TransGen (Link links) a b →
      (kahn links keys).order.idxOf a < (kahn links keys).order.idxOf b := by
    intro b hpath
    induction hpath with
    | single hlink => exact kahn_forward hnodup hclosed hlength hlink
    | tail _ hlink ih => exact ih.trans (kahn_forward hnodup hclosed hlength hlink)
  have hself := hlt a hcycle
  omega

/-- A node left out has links left, so that one of its sources is left out too. -/
theorem kahn_leftover {b : α} (hb : b ∈ keys) (hout : b ∉ (kahn links keys).order) :
    0 < (kahn links keys).remaining b ∧ ∃ a ∈ keys, a ∉ (kahn links keys).order ∧
      Link links a b := by
  obtain ⟨h, hqueue⟩ := kahn_inv hnodup hclosed
  have hnonzero : (kahn links keys).remaining b ≠ 0 := by
    rw [Ne, h.ready b hb, hqueue, List.append_nil]
    exact hout
  have hcount := h.remaining b
  have hpos : 0 < links.countP fun l => l.2 = b ∧ l.1 ∉ (kahn links keys).order := by omega
  refine ⟨by omega, ?_⟩
  obtain ⟨⟨a, c⟩, hmem, hlink⟩ := List.countP_pos_iff.mp hpos
  obtain ⟨rfl, ha⟩ : c = b ∧ a ∉ (kahn links keys).order := by simpa using hlink
  exact ⟨a, (hclosed a c hmem).1, ha, hmem⟩

theorem kahn_missing (hlength : (kahn links keys).order.length ≠ keys.length) :
    ∃ b ∈ keys, b ∉ (kahn links keys).order := by
  by_contra hnone
  push Not at hnone
  have hle := ((kahn_inv hnodup hclosed).1).length_le
  have hge : keys.length ≤ (kahn links keys).order.length :=
    (List.subperm_of_subset hnodup hnone).length_le
  omega

/-- Going back from a node left out never ends, so the graph has a cycle. -/
theorem kahn_cyclic (hlength : (kahn links keys).order.length ≠ keys.length) : Cyclic links := by
  by_contra hacyclic
  let before : {k // k ∈ keys} → {k // k ∈ keys} → Prop :=
    fun a b => Relation.TransGen (Link links) a b
  have htrans : IsTrans _ before := ⟨fun _ _ _ => Relation.TransGen.trans⟩
  have hirrefl : Std.Irrefl before := ⟨fun a h => hacyclic ⟨a, h⟩⟩
  have hfinite : Finite {k // k ∈ keys} := keys.finite_toSet
  have hwf : WellFounded before := Finite.wellFounded_of_trans_of_irrefl before
  obtain ⟨b₀, hb₀, hout₀⟩ := kahn_missing hnodup hclosed hlength
  obtain ⟨⟨b, hb⟩, hout, hleast⟩ :=
    hwf.has_min {k | k.1 ∉ (kahn links keys).order} ⟨⟨b₀, hb₀⟩, hout₀⟩
  obtain ⟨-, a, ha, haout, hlink⟩ := kahn_leftover hnodup hclosed hb hout
  exact hleast ⟨a, ha⟩ haout (.single hlink)

theorem kahn_length_iff : (kahn links keys).order.length = keys.length ↔ ¬Cyclic links := by
  constructor
  · exact kahn_acyclic hnodup hclosed
  · intro hacyclic
    by_contra hlength
    exact hacyclic (kahn_cyclic hnodup hclosed hlength)

end

end kahn

section traverse

/-- Visit what can be reached from the stack, its top first; `fuel` bounds the pops. -/
def traverse (succ : α → List α) : Nat → List α → List α → List α
  | 0, _, visited => visited
  | _ + 1, [], visited => visited
  | fuel + 1, a :: rest, visited =>
    if a ∈ visited then traverse succ fuel rest visited
    else traverse succ fuel ((succ a).reverse ++ rest) (visited ++ [a])

/-- What was visited or waits is reachable, and no successor of a visited node is lost. -/
structure Front (links : List (α × α)) (start : α) (stack visited : List α) : Prop where
  reached : ∀ b ∈ stack ++ visited, Reaches links start b
  kept : start ∈ stack ++ visited
  closed : ∀ a ∈ visited, ∀ b, Link links a b → b ∈ stack ++ visited

omit [DecidableEq α] in
theorem Front.visited_iff {start : α} {visited : List α}
    (h : Front links start [] visited) (b : α) :
    b ∈ visited ↔ Reaches links start b := by
  constructor
  · exact h.reached b
  · intro hreach
    induction hreach with
    | refl => exact h.kept
    | tail _ hlink ih => exact h.closed _ ih _ hlink

omit [DecidableEq α] in
theorem Front.skip {start a : α} {rest visited : List α} (h : Front links start (a :: rest) visited)
    (ha : a ∈ visited) :
    Front links start rest visited := by
  have hdrop : ∀ b, b ∈ a :: rest ++ visited → b ∈ rest ++ visited := by
    intro b hb
    obtain rfl | hb := List.mem_cons.mp hb
    · exact List.mem_append_right _ ha
    · exact hb
  exact ⟨fun b hb => h.reached b (List.mem_cons_of_mem _ hb), hdrop _ h.kept,
    fun c hc b hlink => hdrop b (h.closed c hc b hlink)⟩

theorem Front.visit {start a : α} {rest visited : List α}
    (h : Front links start (a :: rest) visited) :
    Front links start ((succ links a).reverse ++ rest) (visited ++ [a]) := by
  have hkeep : ∀ b, b ∈ a :: rest ++ visited →
      b ∈ (succ links a).reverse ++ rest ++ (visited ++ [a]) := by
    intro b hb
    simp only [List.cons_append, List.mem_cons, List.mem_append] at hb ⊢
    tauto
  refine ⟨fun b hb => ?_, hkeep _ h.kept, fun c hc b hlink => ?_⟩
  · have hcases : Link links a b ∨ b ∈ a :: rest ++ visited := by
      simp only [List.mem_append, List.mem_reverse, mem_succ, List.cons_append,
        List.mem_cons] at hb ⊢
      tauto
    obtain hlink | hb := hcases
    · exact (h.reached a (by simp)).tail hlink
    · exact h.reached b hb
  · obtain hc | hc := List.mem_append.mp hc
    · exact hkeep b (h.closed c hc b hlink)
    · obtain rfl := List.mem_singleton.mp hc
      simp [mem_succ, hlink]

/-- Visiting `a` uses up its links. -/
theorem countP_unvisited (links : List (α × α)) {visited : List α} {a : α} (ha : a ∉ visited) :
    (links.countP fun l => l.1 ∉ visited) =
      (links.countP fun l => l.1 ∉ visited ++ [a]) + (succ links a).length := by
  induction links with
  | nil => simp [succ]
  | cons l rest ih =>
    obtain ⟨x, y⟩ := l
    rw [List.countP_cons, List.countP_cons, ih]
    by_cases hx : x = a
    · subst hx
      simp [succ, ha]
      omega
    · simp [succ, hx, List.mem_append]
      omega

/-- The stack runs empty once the fuel covers it and the links not yet used. -/
theorem mem_traverse_of_front {start : α} (fuel : Nat) {stack visited : List α}
    (h : Front links start stack visited)
    (hfuel : stack.length + (links.countP fun l => l.1 ∉ visited) ≤ fuel) (b : α) :
    b ∈ traverse (succ links) fuel stack visited ↔ Reaches links start b := by
  induction fuel generalizing stack visited with
  | zero =>
    obtain rfl : stack = [] := List.eq_nil_of_length_eq_zero (by omega)
    exact h.visited_iff b
  | succ fuel ih =>
    cases stack with
    | nil => exact h.visited_iff b
    | cons a rest =>
      rw [List.length_cons] at hfuel
      rw [traverse]
      split_ifs with ha
      · apply ih (h.skip ha)
        omega
      · apply ih h.visit
        have hcount := countP_unvisited links ha
        rw [List.length_append, List.length_reverse]
        omega

theorem mem_traverse (start b : α) :
    b ∈ traverse (succ links) (links.length + 1) [start] [] ↔ Reaches links start b := by
  apply mem_traverse_of_front
  · exact ⟨by simp [Reaches, Relation.ReflTransGen.refl], by simp, by simp⟩
  · have hle := List.countP_le_length (l := links) (p := fun l => decide (l.1 ∉ ([] : List α)))
    rw [List.length_singleton]
    omega

omit [DecidableEq α] in
theorem reaches_swap {a b : α} : Reaches (links.map Prod.swap) b a ↔ Reaches links a b := by
  have hlink : Link (links.map Prod.swap) = Function.swap (Link links) := by
    funext x y
    simp [Link, Function.swap]
  rw [Reaches, hlink, Relation.reflTransGen_swap]
  rfl

end traverse

end taurus.lib.digraph

namespace taurus.lib.kahn

variable {α : Type} [DecidableEq α]

/-- The state of Kahn's algorithm: remaining in-degrees, the queue, the order
found so far and the elements that were ever queued. -/
structure State (α : Type) where
  indeg : α → Int
  queue : List α
  order : List α
  visited : List α

/-- Relax one edge into `b`: at in-degree zero it joins the queue. -/
def relax (s : State α) (b : α) : State α :=
  let d := s.indeg b - 1
  let s := { s with indeg := Function.update s.indeg b d }
  if d = 0 ∧ b ∉ s.visited then
    { s with queue := s.queue ++ [b], visited := s.visited ++ [b] }
  else s

/-- Pop the queue until it is empty; `fuel` bounds the number of pops. -/
def loop (succ : α → List α) : Nat → State α → State α
  | 0, s => s
  | fuel + 1, s =>
    match s.queue with
    | [] => s
    | a :: rest =>
      loop succ fuel ((succ a).foldl relax { s with queue := rest, order := s.order ++ [a] })

/-- The elements of in-degree zero are queued first. -/
def start (indeg : α → Int) (elems : List α) : State α :=
  let zeros := elems.filter fun a => indeg a = 0
  { indeg, queue := zeros, order := [], visited := zeros }

end taurus.lib.kahn
