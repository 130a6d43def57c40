import Taurus.Engine.DagValidator.Verdict

/-! Where the reports of the validator stand: the message of a check goes under the pointer to
the field it has looked at, and stays there through all later checks. -/

namespace taurus.engine.dag_validator

open taurus.lib taurus.lib.digraph taurus.python taurus.engine.executor taurus.engine.registry

variable {r r' r'' : DAGValidationResult} {py : Reprs} {registry : UnitAdapterRegistry}
  {dag : WorkflowDAG}
  {strict : Bool} {v : View}

/-- The message stands under the pointer. -/
def Listed (r : DAGValidationResult) (ptr m : String) : Prop := m ∈ (Dict.get? r.errors ptr).getD []

/-- An error is listed at its place, and nothing else is. -/
theorem listed_add_error {ptr m ptr' m' : String} :
    Listed (r.add_error ptr m) ptr' m' ↔ Listed r ptr' m' ∨ (ptr' = ptr ∧ m' = m) := by
  unfold Listed DAGValidationResult.add_error DAGValidationResult.append
  by_cases hptr : ptr' = ptr
  · subst hptr
    simp
  · simp [Dict.get?_set_ne _ _ (Ne.symm hptr), hptr]

/-- What is listed somewhere is a message. -/
theorem mem_messages_of_listed {ptr m : String} (h : Listed r ptr m) : m ∈ messages r := by
  unfold Listed at h
  rw [messages, List.mem_flatMap]
  cases hget : Dict.get? r.errors ptr with
  | none => simp [hget] at h
  | some ms =>
    rw [hget] at h
    exact ⟨(ptr, ms), Dict.mem_of_get? hget, h⟩

/-- No message of `r` is lost in `r'`. -/
def Grows (r r' : DAGValidationResult) : Prop := ∀ ptr m, Listed r ptr m → Listed r' ptr m

theorem Grows.refl (r : DAGValidationResult) : Grows r r := fun _ _ => id

theorem Grows.trans (h : Grows r r') (h' : Grows r' r'') : Grows r r'' :=
  fun ptr m hm => h' ptr m (h ptr m hm)

theorem grows_add_error (r : DAGValidationResult) (ptr m : String) : Grows r (r.add_error ptr m) :=
  fun _ _ h => listed_add_error.mpr (.inl h)

theorem grows_add_warning (r : DAGValidationResult) (ptr m : String) :
    Grows r (r.add_warning ptr m) := fun _ _ => id

theorem grows_if (p : Prop) [Decidable p] (r : DAGValidationResult) (ptr m : String) :
    Grows r (if p then r.add_error ptr m else r) := by
  split_ifs
  · exact grows_add_error r ptr m
  · exact Grows.refl r

section loops

variable {α : Type}

/-- A loop of checks loses no message. -/
theorem grows_foldl {f : DAGValidationResult → α → DAGValidationResult}
    (h : ∀ r x, Grows r (f r x)) (xs : List α) (r : DAGValidationResult) :
    Grows r (xs.foldl f r) := by
  induction xs generalizing r with
  | nil => exact Grows.refl r
  | cons x rest ih => exact (h r x).trans (ih (f r x))

variable {f : DAGValidationResult → α → Except Exn DAGValidationResult}

/-- Neither does one that may raise. -/
theorem grows_foldlM (h : ∀ r x r', f r x = .ok r' → Grows r r') {xs : List α}
    (hfold : xs.foldlM f r = .ok r') :
    Grows r r' := by
  induction xs generalizing r with
  | nil =>
    obtain rfl := Except.ok.inj hfold
    exact Grows.refl r
  | cons x rest ih =>
    rw [List.foldlM_cons] at hfold
    obtain ⟨r₁, hx, hrest⟩ := bind_eq_ok.mp hfold
    exact (h r x r₁ hx).trans (ih hrest)

/-- What one turn of a loop reports is there at its end. -/
theorem listed_foldlM (h : ∀ r x r', f r x = .ok r' → Grows r r') {xs : List α} {x : α}
    (hx : x ∈ xs) {ptr m : String} (hturn : ∀ r r', f r x = .ok r' → Listed r' ptr m)
    (hfold : xs.foldlM f r = .ok r') : Listed r' ptr m := by
  induction xs generalizing r with
  | nil => exact absurd hx List.not_mem_nil
  | cons y rest ih =>
    rw [List.foldlM_cons] at hfold
    obtain ⟨r₁, hy, hrest⟩ := bind_eq_ok.mp hfold
    obtain rfl | hx := List.mem_cons.mp hx
    · exact grows_foldlM h hrest ptr m (hturn r r₁ hy)
    · exact ih hx hrest

end loops

/-- The message about a node key that is no text. -/
def bad_key : String := "V-02: node_key must be a non-empty string"

/-- Each check only adds messages. -/
theorem check_key_grows (s : DAGValidationResult × Dict String Nat) (n : Dict String Json × Nat) :
    Grows s.1 (check_key s n).1 := by
  obtain ⟨ptr, m, hkey, -⟩ | ⟨k, -, -, -, hkey⟩ := check_key_cases s n
  · rw [hkey]
    exact grows_add_error s.1 ptr m
  · rw [hkey]
    exact Grows.refl s.1

theorem check_keys_grows (nodes : List (Dict String Json × Nat))
    (s : DAGValidationResult × Dict String Nat) :
    Grows s.1 (nodes.foldl check_key s).1 := by
  induction nodes generalizing s with
  | nil => exact Grows.refl s.1
  | cons n rest ih => exact (check_key_grows s n).trans (ih (check_key s n))

/-- A node without a key is listed at its place. -/
theorem check_key_listed (s : DAGValidationResult × Dict String Nat) {n : Dict String Json × Nat}
    (h : (getJson n.1 "node_key").str? = none) :
    Listed (check_key s n).1 ("/nodes/" ++ toString n.2 ++ "/node_key") bad_key := by
  unfold check_key
  simp only
  split
  · next k hk =>
    rw [hk] at h
    cases h
  · exact listed_add_error.mpr (.inr ⟨rfl, rfl⟩)

theorem check_keys_listed {nodes : List (Dict String Json × Nat)}
    (s : DAGValidationResult × Dict String Nat) {n : Dict String Json × Nat} (hn : n ∈ nodes)
    (h : (getJson n.1 "node_key").str? = none) :
    Listed (nodes.foldl check_key s).1 ("/nodes/" ++ toString n.2 ++ "/node_key") bad_key := by
  induction nodes generalizing s with
  | nil => exact absurd hn List.not_mem_nil
  | cons x rest ih =>
    obtain rfl | hn := List.mem_cons.mp hn
    · exact check_keys_grows rest _ _ _ (check_key_listed s h)
    · exact ih (check_key s x) hn

/-- The message about an end of an edge at which no node is. -/
def dangling (py : Reprs) (role : String) (k : Json) : String :=
  "V-03: " ++ role ++ " node " ++ _repr_key py k ++ " does not exist in /nodes list"

/-- What is no text is never found. -/
theorem lookup_none {β : Type} {d : Dict String β} {k : Json} {found : Option β}
    (hk : k.str? = none) (h : lookup d k = .ok found) : found = none := by
  have hsome := lookup_spec h
  cases found with
  | none => rfl
  | some b =>
    obtain ⟨s, rfl, -⟩ := hsome.mp rfl
    cases hk

theorem grows_of_ite {p : Prop} [Decidable p] {ptr m : String}
    (h : (if p then pure (r.add_error ptr m)
      else pure r : Except Exn DAGValidationResult) = .ok r') : Grows r r' := by
  split_ifs at h
  · obtain rfl := Except.ok.inj h
    exact grows_add_error r ptr m
  · obtain rfl := Except.ok.inj h
    exact Grows.refl r

theorem check_edge_grows {key_to_idx : Dict String Nat} (r : DAGValidationResult)
    (e : Dict String Json × Nat) (r' : DAGValidationResult)
    (h : check_edge py key_to_idx r e = .ok r') : Grows r r' := by
  unfold check_edge at h
  obtain ⟨source, -, h⟩ := bind_eq_ok.mp h
  obtain ⟨target, -, h⟩ := bind_eq_ok.mp h
  exact ((grows_if _ _ _ _).trans (grows_if _ _ _ _)).trans (grows_of_ite h)

/-- An end that is no text is reported. -/
theorem check_edge_listed {key_to_idx : Dict String Nat} {e : Dict String Json × Nat}
    (h : check_edge py key_to_idx r e = .ok r') :
    ((getJson e.1 "from_key").str? = none →
      Listed r' ("/edges/" ++ toString e.2 ++ "/from_key")
        (dangling py "Source" (getJson e.1 "from_key"))) ∧
    ((getJson e.1 "to_key").str? = none →
      Listed r' ("/edges/" ++ toString e.2 ++ "/to_key")
        (dangling py "Target" (getJson e.1 "to_key"))) := by
  unfold check_edge at h
  obtain ⟨source, hsource, h⟩ := bind_eq_ok.mp h
  obtain ⟨target, htarget, h⟩ := bind_eq_ok.mp h
  constructor
  · intro hk
    rw [lookup_none hk hsource] at h
    apply grows_of_ite h
    apply grows_if
    exact listed_add_error.mpr (.inr ⟨rfl, rfl⟩)
  · intro hk
    rw [lookup_none hk htarget] at h
    apply grows_of_ite h
    exact listed_add_error.mpr (.inr ⟨rfl, rfl⟩)

theorem check_terminal_edges_grows (h : check_terminal_edges v r = .ok r') : Grows r r' := by
  unfold check_terminal_edges at h
  obtain ⟨into, -, h⟩ := bind_eq_ok.mp h
  obtain ⟨out, -, h⟩ := bind_eq_ok.mp h
  obtain rfl := Except.ok.inj h
  exact (grows_if _ _ _ _).trans (grows_if _ _ _ _)

theorem check_acyclic_grows (h : check_acyclic v r = .ok r') : Grows r r' := by
  unfold check_acyclic at h
  simp only at h
  split_ifs at h
  · obtain rfl := Except.ok.inj h
    exact Grows.refl r
  · split at h
    · cases h
    · obtain rfl := Except.ok.inj h
      exact grows_add_error _ _ _
  · obtain rfl := Except.ok.inj h
    exact fun _ _ => id

theorem check_closure_grows (key_to_idx : Dict String Nat) (spared : String → Bool)
    (closure : List String) (message : String → String) (r : DAGValidationResult) :
    Grows r (check_closure key_to_idx spared closure message r) :=
  grows_foldl (fun r _ => grows_if _ r _ _) key_to_idx r

theorem check_reachable_grows (v : View) (r : DAGValidationResult) :
    Grows r (check_reachable v r) := by
  unfold check_reachable
  split
  · split_ifs
    · exact check_closure_grows _ _ _ _ r
    · exact Grows.refl r
  · exact Grows.refl r

theorem check_coreachable_grows (v : View) (r : DAGValidationResult) :
    Grows r (check_coreachable v r) := by
  unfold check_coreachable
  split
  · split_ifs
    · exact check_closure_grows _ _ _ _ r
    · exact Grows.refl r
  · exact Grows.refl r

theorem check_type_grows {registered : List String} (r : DAGValidationResult)
    (n : Dict String Json × Nat) (r' : DAGValidationResult)
    (h : check_type py registered r n = .ok r') : Grows r r' := by
  unfold check_type at h
  obtain ⟨found, -, h⟩ := bind_eq_ok.mp h
  cases found with
  | none =>
    obtain rfl := Except.ok.inj h
    exact Grows.refl r
  | some message =>
    obtain rfl := Except.ok.inj h
    exact grows_add_error _ _ _

theorem check_types_grows (h : check_types py registry dag strict r = .ok r') : Grows r r' := by
  unfold check_types at h
  split_ifs at h
  · exact grows_foldlM check_type_grows h
  · obtain rfl := Except.ok.inj h
    exact Grows.refl r

/-- A node type that is no text is not registered. -/
theorem check_type_listed {registered : List String} {n : Dict String Json × Nat}
    (hn : (getJson n.1 "node_type").str? = none) (h : check_type py registered r n = .ok r') :
    ∃ m, Listed r' ("/nodes/" ++ toString n.2 ++ "/node_type") m ∧ "V-07".toList <+: m.toList := by
  obtain ⟨hadds, found, hfound⟩ := check_type_spec h
  unfold check_type at h
  rw [hfound] at h
  cases found with
  | none =>
    unfold type_message at hfound
    simp only [hn, Option.any_none, Bool.false_eq_true, if_false] at hfound
    split at hfound <;> simp at hfound
  | some message =>
    obtain rfl := Except.ok.inj h
    refine ⟨message, listed_add_error.mpr (.inr ⟨rfl, rfl⟩), ?_⟩
    have hcoded := @type_message_coded py registered n.1
    rw [hfound] at hcoded
    obtain ⟨code, hcode, hprefix⟩ := hcoded message (by simp [Except.toOption])
    obtain rfl := List.mem_singleton.mp hcode
    exact hprefix

theorem check_condition_grows (r : DAGValidationResult) (e : Dict String Json × Nat)
    (r' : DAGValidationResult) (h : check_condition r e = .ok r') : Grows r r' := by
  unfold check_condition at h
  simp only at h
  split at h
  · obtain rfl := Except.ok.inj h
    exact Grows.refl r
  · next cond hcond =>
    by_cases hempty : cond = ""
    · rw [if_pos hempty] at h
      obtain rfl := Except.ok.inj h
      exact Grows.refl r
    · rw [if_neg hempty] at h
      cases htoken : unsafe_token? cond with
      | some token =>
        rw [htoken] at h
        obtain rfl := Except.ok.inj h
        exact (grows_if _ _ _ _).trans (grows_add_error _ _ _)
      | none =>
        rw [htoken] at h
        obtain rfl := Except.ok.inj h
        exact grows_if _ _ _ _
  · cases h

theorem check_hosts_grows (r : DAGValidationResult) (n : Dict String Json × Nat) :
    Grows r (check_hosts py registry r n) := by
  unfold check_hosts
  cases host_message py registry n.1 n.2 with
  | some message => exact grows_add_error _ _ _
  | none => exact Grows.refl r

theorem warn_isolated_grows (v : View) (r : DAGValidationResult) (kv : String × Nat) :
    Grows r (warn_isolated v r kv) := by
  unfold warn_isolated
  simp only
  split
  · exact Grows.refl r
  · split
    · exact grows_add_warning _ _ _
    · exact Grows.refl r

end taurus.engine.dag_validator
