import Mathlib.Data.List.Sort
import Taurus.Engine.Properties.Finality
import Taurus.Engine.Steps.Calls
import Taurus.Python.Float

namespace taurus.engine.runner

open taurus.lib taurus.lib.Prog taurus.python taurus.engine.executor

/-- The items of a loop row, as its adapter has listed them. -/
def loop_items (parent : NodeExec) : List Json :=
  (iterate (getJson parent.output "loop_items")).getD []

/-- The stored row is the child of the loop's `i`-th item on the host of its parent. -/
def ChildOf (parent : NodeExec) (i : Nat) (r : NodeExec) : Prop :=
  r.attempt_key = (childKey parent.node_key i, parent.host_id, 1)

instance (parent : NodeExec) (i : Nat) : DecidablePred (ChildOf parent i) :=
  fun _ => by unfold ChildOf; infer_instance

/-- The child still has the index and the item that it was created with, or these of
another item. -/
def Carries (i : Nat) (item : Json) (r : NodeExec) : Prop :=
  getJson r.adapter_state "loop_index" = .int i ∧ getJson r.adapter_state "loop_item" = item

/-- The entry of an item and its child in the results. -/
structure EntryOf (i : Nat) (item : Json) (child : NodeExec) (entry : Dict String Json) : Prop where
  index : getJson entry "index" = .int i
  item : getJson entry "item" = item
  status : getJson entry "status" = .int child.status.toInt
  output : getJson entry "output" = .obj child.output

/-- The results stored for a loop are those of the children of its items, in the
order of the items. -/
structure Exact (rows : List NodeExec) (parent stored : NodeExec) : Prop where
  results : ∃ results, getJson stored.output "loop_results" = .arr results ∧
    results.length = (loop_items parent).length ∧ ∀ i item, (loop_items parent)[i]? = some item →
      ∃ child ∈ rows, ChildOf parent i child ∧ ∃ entry, results[i]? = some (.obj entry) ∧
      EntryOf i item child entry
  count : getJson stored.output "loop_count" = .int (loop_items parent).length
  success : ∃ b, getJson stored.output "loop_success" = .bool b ∧
    (b = true ↔ ∀ i < (loop_items parent).length, ∀ c ∈ rows, ChildOf parent i c →
    c.status ≠ .FAILED)

/-- The order of the texts of two numbers. -/
def TextLE (i j : Nat) : Prop := toString i ≤ toString j

instance : DecidableRel TextLE := fun _ _ => by unfold TextLE; infer_instance

/-- The numbers below `n` in the order of their texts. -/
def text_order (n : Nat) : List Nat := (List.range n).insertionSort TextLE

/-- What the aggregation of a loop relies on: the rows whose keys begin like those of its children
are the children of its items, and the child that comes at place `p` in the order of the texts
carries index and item `p` and has ended as child `p` did. -/
structure Undisturbed (rows : List NodeExec) (parent : NodeExec) : Prop where
  own : ∀ r ∈ child_rows rows parent.node_key, ∃ i < (loop_items parent).length, ChildOf parent i r
  all : ∀ i < (loop_items parent).length, ∃ r ∈ rows, ChildOf parent i r
  carried : ∀ p i item c q, (text_order (loop_items parent).length)[p]? = some i →
    (loop_items parent)[p]? = some item →
    c ∈ rows → ChildOf parent i c → q ∈ rows → ChildOf parent p q →
      Carries p item c ∧ c.status = q.status ∧ c.output = q.output

/-- Numbers are told apart by their texts. -/
theorem toString_nat_injective : Function.Injective (toString : Nat → String) := by
  intro i j h
  have hdigits : Nat.toDigits 10 i = Nat.toDigits 10 j := by
    have := congrArg String.toList h
    simpa using this
  have hread := congrArg digitsNat? hdigits
  rw [digitsNat?_toDigits, digitsNat?_toDigits] at hread
  exact Option.some.inj hread

theorem childKey_toList (parent_key : String) (i : Nat) :
    (childKey parent_key i).toList =
      (parent_key.toList ++ "__loop_".toList) ++ (toString i).toList := by
  simp [childKey, String.toList_append]
  rfl

/-- Each index has its own key. -/
theorem childKey_injective (parent_key : String) : Function.Injective (childKey parent_key) := by
  intro i j h
  have hlist := congrArg String.toList h
  rw [childKey_toList, childKey_toList, List.append_cancel_left_eq] at hlist
  exact toString_nat_injective (String.toList_injective hlist)

/-- The keys of two children are ordered like the texts of their numbers. -/
theorem childKey_lt {parent_key : String} {i j : Nat} (h : toString i < toString j) :
    childKey parent_key i < childKey parent_key j := by
  rw [String.lt_iff_toList_lt, childKey_toList, childKey_toList]
  exact List.append_left_lt (String.lt_iff_toList_lt.mp h)

theorem hasChildPrefix_childKey (parent_key : String) (i : Nat) :
    hasChildPrefix parent_key (childKey parent_key i) = true := by
  unfold hasChildPrefix startswith
  rw [childKey_toList, afterPrefix_append, Option.isSome_some]

theorem status_toInt_injective : Function.Injective Status.toInt := by
  intro a b h
  cases a <;> cases b <;> first | rfl | cases h

instance : Std.Total TextLE := ⟨fun i j => le_total (toString i) (toString j)⟩

instance : IsTrans Nat TextLE := ⟨fun _ _ _ h h' => le_trans (α := String) h h'⟩

/-- The order of texts is an order of the indices. -/
theorem text_order_perm (n : Nat) : (text_order n).Perm (List.range n) :=
  List.perm_insertionSort TextLE _

theorem mem_text_order {n i : Nat} : i ∈ text_order n ↔ i < n := by
  rw [(text_order_perm n).mem_iff, List.mem_range]

theorem text_order_length (n : Nat) : (text_order n).length = n := by
  rw [(text_order_perm n).length_eq, List.length_range]

/-- Up to ten numbers come in their own order. -/
theorem text_order_of_le_ten {n : Nat} (h : n ≤ 10) : text_order n = List.range n := by
  have hten : (List.range 10).Pairwise TextLE := by decide
  have hsub : (List.range n).Sublist (List.range 10) := by
    rw [← Nat.add_sub_cancel' h, List.range_add]
    exact List.sublist_append_left _ _
  exact (hten.sublist hsub).insertionSort_eq

section children

variable {t : Table} {parent : NodeExec}

/-- The stored child of an item. -/
def child_of (rows : List NodeExec) (parent : NodeExec) (i : Nat) : Option NodeExec :=
  rows.find? fun r => ChildOf parent i r

/-- The child at an index is the row with its key. -/
theorem child_of_eq_some_iff {i : Nat} {c : NodeExec} :
    child_of t.rows parent i = some c ↔ c ∈ t.rows ∧ ChildOf parent i c := by
  constructor
  · intro h
    exact ⟨List.mem_of_find?_eq_some h, by simpa using List.find?_some h⟩
  · rintro ⟨hc, hchild⟩
    cases hfind : child_of t.rows parent i with
    | none => exact absurd (decide_eq_true hchild) (by simpa using List.find?_eq_none.mp hfind c hc)
    | some r =>
      have hr : ChildOf parent i r := by simpa using List.find?_some hfind
      rw [t.eq_of_attempt_key (List.mem_of_find?_eq_some hfind) hc (hr.trans hchild.symm)]

/-- There is one. -/
theorem child_unique {i : Nat} {c d : NodeExec} (hc : c ∈ t.rows) (hci : ChildOf parent i c)
    (hd : d ∈ t.rows) (hdi : ChildOf parent i d) : c = d :=
  t.eq_of_attempt_key hc hd (hci.trans hdi.symm)

/-- A row is the child of one item. -/
theorem item_unique {i j : Nat} {c : NodeExec} (hi : ChildOf parent i c)
    (hj : ChildOf parent j c) : i = j :=
  childKey_injective parent.node_key (Prod.mk.inj (hi.symm.trans hj)).1

theorem ChildOf.mem_child_rows {i : Nat} {c : NodeExec} (hc : c ∈ t.rows) (h : ChildOf parent i c) :
    c ∈ child_rows t.rows parent.node_key := by
  have hkey : c.node_key = childKey parent.node_key i := (Prod.mk.inj h).1
  exact List.mem_filter.mpr ⟨hc, hkey ▸ hasChildPrefix_childKey _ _⟩

/-- Different indices have different children. -/
theorem children_nodup {l : List Nat} (h : l.Nodup) :
    (l.filterMap (child_of t.rows parent)).Nodup := by
  refine List.Nodup.filterMap (fun i j c hi hj => ?_) h
  exact item_unique (child_of_eq_some_iff.mp hi).2 (child_of_eq_some_iff.mp hj).2

/-- The children in the order of the texts of their numbers are in the order of the table. -/
theorem children_ordered (n : Nat) :
    ((text_order n).filterMap (child_of t.rows parent)).Pairwise NodeExec.before := by
  refine List.Pairwise.filterMap _ (fun i j hij c hc d hd => ?_)
    (List.pairwise_insertionSort TextLE (List.range n))
  obtain ⟨hct, hci⟩ := child_of_eq_some_iff.mp hc
  obtain ⟨hdt, hdj⟩ := child_of_eq_some_iff.mp hd
  obtain hlt | heq := lt_or_eq_of_le (hij : toString i ≤ toString j)
  · refine Or.inl ?_
    rw [(Prod.mk.inj hci).1, (Prod.mk.inj hdj).1]
    exact childKey_lt hlt
  · obtain rfl := toString_nat_injective heq
    obtain rfl := child_unique hct hci hdt hdj
    exact Or.inr ⟨rfl, Or.inr ⟨rfl, le_refl _⟩⟩

/-- Two lists of the same stored rows in the order of the table are equal. -/
theorem eq_of_ordered {l l' : List NodeExec} (hperm : l.Perm l') (hl : l.Pairwise NodeExec.before)
    (hl' : l'.Pairwise NodeExec.before) (hrows : l ⊆ t.rows) : l = l' := by
  refine hperm.eq_of_pairwise (fun a b ha hb hab hba => ?_) hl hl'
  refine t.eq_of_pk (hrows ha) (hrows (hperm.symm.subset hb)) ?_
  unfold NodeExec.before at hab hba
  obtain hlt | ⟨hkey, hab⟩ := hab
  · obtain hlt' | ⟨hkey', -⟩ := hba
    · exact absurd hlt (lt_asymm hlt')
    · exact absurd hlt (hkey' ▸ lt_irrefl _)
  · obtain hlt | ⟨-, hba⟩ := hba
    · exact absurd hlt (hkey ▸ lt_irrefl _)
    · omega

/-- A list of which all elements have a value, value by value. -/
theorem getElem?_filterMap {α β : Type} {f : α → Option β} {l : List α}
    (h : ∀ a ∈ l, (f a).isSome = true) (p : Nat) :
    (l.filterMap f)[p]? = l[p]?.bind f := by
  induction l generalizing p with
  | nil => simp
  | cons a rest ih =>
    obtain ⟨b, hb⟩ := Option.isSome_iff_exists.mp (h a List.mem_cons_self)
    rw [List.filterMap_cons_some hb]
    cases p with
    | zero => simp [hb]
    | succ p => simpa using ih (fun a ha => h a (List.mem_cons_of_mem _ ha)) p

theorem length_filterMap {α β : Type} {f : α → Option β} {l : List α}
    (h : ∀ a ∈ l, (f a).isSome = true) :
    (l.filterMap f).length = l.length := by
  induction l with
  | nil => rfl
  | cons a rest ih =>
    obtain ⟨b, hb⟩ := Option.isSome_iff_exists.mp (h a List.mem_cons_self)
    rw [List.filterMap_cons_some hb, List.length_cons,
      ih fun a ha => h a (List.mem_cons_of_mem _ ha), List.length_cons]

/-- Where the children of a loop are all there, and the only rows whose keys begin like theirs, they
come in the order of the texts of their numbers. -/
theorem child_rows_eq {n : Nat} (hordered : t.Ordered)
    (hown : ∀ r ∈ child_rows t.rows parent.node_key, ∃ i < n, ChildOf parent i r) :
    child_rows t.rows parent.node_key = (text_order n).filterMap (child_of t.rows parent) := by
  have hnodup : (child_rows t.rows parent.node_key).Nodup :=
    (List.Nodup.of_map _ t.pk_nodup).filter _
  refine eq_of_ordered ?_ (hordered.filter _) (children_ordered n) (List.filter_subset_self _)
  refine (List.perm_ext_iff_of_nodup hnodup (children_nodup ?_)).mpr fun c => ?_
  · exact (text_order_perm n).nodup_iff.mpr List.nodup_range
  · rw [List.mem_filterMap]
    constructor
    · intro hc
      obtain ⟨i, hi, hchild⟩ := hown c hc
      exact ⟨i, mem_text_order.mpr hi, child_of_eq_some_iff.mpr ⟨List.mem_of_mem_filter hc, hchild⟩⟩
    · rintro ⟨i, hi, hc⟩
      obtain ⟨hct, hchild⟩ := child_of_eq_some_iff.mp hc
      exact hchild.mem_child_rows hct

/-- All items below `n` have their child. -/
theorem child_of_isSome {n i : Nat} (hall : ∀ i < n, ∃ r ∈ t.rows, ChildOf parent i r)
    (hi : i < n) :
    (child_of t.rows parent i).isSome = true := by
  obtain ⟨c, hc, hchild⟩ := hall i hi
  exact Option.isSome_iff_exists.mpr ⟨c, child_of_eq_some_iff.mpr ⟨hc, hchild⟩⟩

/-- The child at a place of the table. -/
theorem child_rows_at {n p : Nat} (hordered : t.Ordered)
    (hown : ∀ r ∈ child_rows t.rows parent.node_key, ∃ i < n, ChildOf parent i r)
    (hall : ∀ i < n, ∃ r ∈ t.rows, ChildOf parent i r) {i : Nat}
    (hp : (text_order n)[p]? = some i) :
    ∃ c ∈ t.rows, ChildOf parent i c ∧ (child_rows t.rows parent.node_key)[p]? = some c := by
  have hsome : ∀ i ∈ text_order n, (child_of t.rows parent i).isSome = true :=
    fun i hi => child_of_isSome hall (mem_text_order.mp hi)
  obtain ⟨c, hc⟩ := Option.isSome_iff_exists.mp (hsome i (List.mem_of_getElem? hp))
  obtain ⟨hct, hchild⟩ := child_of_eq_some_iff.mp hc
  refine ⟨c, hct, hchild, ?_⟩
  rw [child_rows_eq hordered hown, getElem?_filterMap hsome, hp]
  exact hc

/-- There are as many children as items. -/
theorem child_rows_length {n : Nat} (hordered : t.Ordered)
    (hown : ∀ r ∈ child_rows t.rows parent.node_key, ∃ i < n, ChildOf parent i r)
    (hall : ∀ i < n, ∃ r ∈ t.rows, ChildOf parent i r) :
    (child_rows t.rows parent.node_key).length = n := by
  rw [child_rows_eq hordered hown,
    length_filterMap fun i hi => child_of_isSome hall (mem_text_order.mp hi)]
  exact text_order_length n

/-- If there are as many rows of such keys as items, and all children are there, the
rows are the children. -/
theorem own_of_length {n : Nat} (hall : ∀ i < n, ∃ r ∈ t.rows, ChildOf parent i r)
    (hlength : (child_rows t.rows parent.node_key).length = n) :
    ∀ r ∈ child_rows t.rows parent.node_key, ∃ i < n, ChildOf parent i r := by
  set children := (List.range n).filterMap (child_of t.rows parent)
  have hsub : children ⊆ child_rows t.rows parent.node_key := by
    intro c hc
    obtain ⟨i, -, hi⟩ := List.mem_filterMap.mp hc
    obtain ⟨hct, hchild⟩ := child_of_eq_some_iff.mp hi
    exact hchild.mem_child_rows hct
  have hsize : children.length = n := by
    rw [length_filterMap fun i hi => child_of_isSome hall (List.mem_range.mp hi), List.length_range]
  have hperm : children.Perm (child_rows t.rows parent.node_key) :=
    (List.subperm_of_subset (children_nodup List.nodup_range) hsub).perm_of_length_le
      (hlength.trans hsize.symm).le
  intro r hr
  obtain ⟨i, hi, hri⟩ := List.mem_filterMap.mp (hperm.symm.subset hr)
  exact ⟨i, List.mem_range.mp hi, (child_of_eq_some_iff.mp hri).2⟩

end children

section aggregation

variable {ver : DagVersion} {env : Env} {w w' : World} {parent : NodeExec}

/-- An aggregation saves the parent over the rows found under its prefix. -/
theorem aggregated_table_eq (h : _aggregate_loop_children env parent w = (.ok 1, w')) : w'.table =
    w.table.save (aggregated_row env parent
      (child_rows w.rows parent.node_key)) env.now aggregateFields := by
  have hload : objects_filter (fun r => hasChildPrefix parent.node_key r.node_key) w =
      (.ok (child_rows w.rows parent.node_key), w) := rfl
  unfold _aggregate_loop_children at h
  rw [bind_ok hload] at h
  split_ifs at h
  · exact absurd (Except.ok.inj (Prod.mk.inj h).1) (by decide)
  · exact absurd (Except.ok.inj (Prod.mk.inj h).1) (by decide)
  · rw [← (Prod.mk.inj h).2]
    rfl

/-- The rows found under the prefix of a loop bring, in their order, what the results should say. -/
structure Brings (rows found : List NodeExec) (parent : NodeExec) : Prop where
  length : found.length = (loop_items parent).length
  row : ∀ i item, (loop_items parent)[i]? = some item → ∃ child ∈ rows, ChildOf parent i child ∧
    ∃ r, found[i]? = some r ∧ Carries i item r ∧ r.status = child.status ∧ r.output = child.output

/-- The results are in the order of the items exactly if nothing disturbs it. -/
theorem brings_iff (hordered : w.table.Ordered) :
    Brings w.rows (child_rows w.rows parent.node_key) parent ↔ Undisturbed w.rows parent := by
  set n := (loop_items parent).length with hn
  constructor
  · intro h
    have hall : ∀ i < n, ∃ r ∈ w.rows, ChildOf parent i r := by
      intro i hi
      obtain ⟨child, hmem, hchild, -⟩ := h.row i _ (List.getElem?_eq_getElem hi)
      exact ⟨child, hmem, hchild⟩
    have hown := own_of_length hall h.length
    refine ⟨hown, hall, fun p i item c q hp hitem hc hci hq hqp => ?_⟩
    obtain ⟨d, hd, hdi, hdp⟩ := child_rows_at hordered hown hall hp
    obtain rfl := child_unique hc hci hd hdi
    obtain ⟨child, hmem, hchild, r, hr, hcarries, hstatus, hout⟩ := h.row p item hitem
    obtain rfl : c = r := Option.some.inj (hdp.symm.trans hr)
    obtain rfl := child_unique hq hqp hmem hchild
    exact ⟨hcarries, hstatus, hout⟩
  · intro h
    refine ⟨child_rows_length hordered h.own h.all, fun p item hitem => ?_⟩
    have hp : p < n := (List.getElem?_eq_some_iff.mp hitem).1
    obtain ⟨q, hq, hqp⟩ := h.all p hp
    obtain ⟨i, hi⟩ : ∃ i, (text_order n)[p]? = some i :=
      ⟨_, List.getElem?_eq_getElem ((text_order_length n).symm ▸ hp)⟩
    obtain ⟨c, hc, hci, hcp⟩ := child_rows_at hordered h.own h.all hi
    obtain ⟨hcarries, hstatus, hout⟩ := h.carried p i item c q hi hitem hc hci hq hqp
    exact ⟨q, hq, hqp, c, hcp, hcarries, hstatus, hout⟩

/-- The results stored over the rows found are exact if and only if these bring what
the results should say. -/
theorem exact_iff_brings {stored : NodeExec} {found : List NodeExec}
    (hout : stored.output = (aggregated_row env parent found).output)
    (hfailed : Brings w.rows found parent → (found.any (·.status = .FAILED) = false ↔
      ∀ i < (loop_items parent).length, ∀ c ∈ w.rows, ChildOf parent i c → c.status ≠ .FAILED)) :
    Exact w.rows parent stored ↔ Brings w.rows found parent := by
  have hresults : getJson stored.output "loop_results" = .arr (found.map loop_result) := by
    rw [hout]; rfl
  have hcount : getJson stored.output "loop_count" = .int found.length := by rw [hout]; rfl
  have hsuccess : getJson stored.output "loop_success" =
      .bool (!found.any (·.status = .FAILED)) := by rw [hout]; rfl
  constructor
  · rintro ⟨⟨results, heq, hlength, hrow⟩, -, -⟩
    obtain rfl := Json.arr.inj (hresults.symm.trans heq)
    refine ⟨by simpa using hlength, fun i item hitem => ?_⟩
    obtain ⟨child, hmem, hchild, entry, hentry, hof⟩ := hrow i item hitem
    rw [List.getElem?_map, Option.map_eq_some_iff] at hentry
    obtain ⟨r, hr, hresult⟩ := hentry
    obtain rfl := Json.obj.inj hresult
    refine ⟨child, hmem, hchild, r, hr, ⟨hof.index, hof.item⟩, ?_, ?_⟩
    · exact status_toInt_injective (Json.int.inj hof.status)
    · exact Json.obj.inj hof.output
  · intro h
    refine ⟨⟨_, hresults, by simpa using h.length, fun i item hitem => ?_⟩, ?_, ?_⟩
    · obtain ⟨child, hmem, hchild, r, hr, hcarries, hstatus, hout⟩ := h.row i item hitem
      have hentry : (found.map loop_result)[i]? = some (loop_result r) := by
        rw [List.getElem?_map, hr, Option.map_some]
      refine ⟨child, hmem, hchild, _, hentry, ?_⟩
      constructor
      · exact hcarries.1
      · exact hcarries.2
      · exact congrArg (fun s : Status => Json.int s.toInt) hstatus
      · exact congrArg Json.obj hout
    · rw [hcount, h.length]
    · refine ⟨_, hsuccess, ?_⟩
      rw [← hfailed h, Bool.not_eq_true']

/-- What one aggregation stores, over a table in its order. -/
theorem aggregation_exact_iff (hordered : w.table.Ordered) (hstored : parent ∈ w.rows)
    (hrun : _aggregate_loop_children env parent w = (.ok 1, w')) :
    (∃ stored ∈ w'.rows, stored.pk = parent.pk ∧ Exact w.rows parent stored) ↔
      Undisturbed w.rows parent := by
  set found := child_rows w.rows parent.node_key with hfound
  have htable := aggregated_table_eq hrun
  set saved := parent.write (aggregated_row env parent found) env.now aggregateFields with hsaved
  have hmem : ∀ r, r ∈ w'.rows ↔ (r ∈ w.rows ∧ r.pk ≠ parent.pk) ∨ r = saved := by
    intro r
    have hpk : (aggregated_row env parent found).pk = parent.pk := rfl
    rw [World.rows, htable]
    exact w.table.mem_save hstored hpk r
  have hone : (∃ stored ∈ w'.rows, stored.pk = parent.pk ∧ Exact w.rows parent stored) ↔
      Exact w.rows parent saved := by
    constructor
    · rintro ⟨r, hr, hpk, hexact⟩
      obtain ⟨-, hne⟩ | rfl := (hmem r).mp hr
      · exact absurd hpk hne
      · exact hexact
    · intro hexact
      exact ⟨saved, (hmem saved).mpr (Or.inr rfl), rfl, hexact⟩
  have hout : saved.output = (aggregated_row env parent found).output := rfl
  rw [hone, exact_iff_brings hout ?_, brings_iff hordered]
  intro hbrings
  have hclean := (brings_iff hordered).mp hbrings
  rw [List.any_eq_false]
  constructor
  · intro hnone i hi c hc hchild hstatus
    exact hnone c (hchild.mem_child_rows hc) (decide_eq_true hstatus)
  · intro hnone r hr hstatus
    obtain ⟨i, hi, hchild⟩ := hclean.own r hr
    exact hnone i hi r (List.mem_of_mem_filter hr) hchild (of_decide_eq_true hstatus)

/-- Up to ten items nothing is disturbed where each child still carries its own index and item. -/
theorem undisturbed_of_le_ten (hten : (loop_items parent).length ≤ 10)
    (hown : ∀ r ∈ child_rows w.rows parent.node_key, ∃ i < (loop_items parent).length,
      ChildOf parent i r)
    (hall : ∀ i < (loop_items parent).length, ∃ r ∈ w.rows, ChildOf parent i r)
    (hcarries : ∀ i item c, (loop_items parent)[i]? = some item → c ∈ w.rows → ChildOf parent i c →
      Carries i item c) :
    Undisturbed w.rows parent where
  own := hown
  all := hall
  carried p i item c q hp hitem hc hci hq hqp := by
    rw [text_order_of_le_ten hten] at hp
    obtain rfl : p = i := by
      obtain ⟨hlt, heq⟩ := List.getElem?_eq_some_iff.mp hp
      simpa using heq
    obtain rfl := w.table.eq_of_attempt_key hc hq (hci.trans hqp.symm)
    exact ⟨hcarries p item c hitem hc hci, rfl, rfl⟩

/-- The results that an aggregation stores for a loop, in any state that a run passes through, are
exact if and only if nothing has disturbed the rows it finds. -/
theorem loop_results_exact_iff (hw : Moves ver .initial w) (hstored : parent ∈ w.rows)
    (hrun : _aggregate_loop_children env parent w = (.ok 1, w')) :
    (∃ stored ∈ w'.rows, stored.pk = parent.pk ∧ Exact w.rows parent stored) ↔
      Undisturbed w.rows parent := by
  have hordered : w.table.Ordered := hw.ordered List.Pairwise.nil
  exact aggregation_exact_iff hordered hstored hrun

end aggregation

/-- The bodies of a loop over two items run from one tick to the next; `state` is
what their adapter keeps. -/
def itemBodies (state : Option (Dict String Json)) (minute : Int) : Env :=
  scripted minute
    (fun key _ => if key = "each" then forEachAnswer [.int 7, .int 8] "command" else
      { status := .RUNNING, adapter_state := state })
    fun _ _ => { status := .SUCCESS, exit_code := some 0 }

/-- The second tick after its poll phase. -/
def bodiesPolled (state : Option (Dict String Json)) : World :=
  let w := started oneLoop (itemBodies state 0) [.advance (itemBodies state 1) none]
  match w.execution with
  | none => w
  | some x => (poll_phase (itemBodies state 2) x w).2

/-- A run passes through the poll phase of a tick. -/
theorem bodiesPolled_moves (state : Option (Dict String Json)) :
    Moves oneLoop .initial (bodiesPolled state) := by
  have hmoves := reachable_moves
    (started_reachable oneLoop (itemBodies state 0) [.advance (itemBodies state 1) none] rfl)
  unfold bodiesPolled
  simp only
  split
  · exact hmoves
  · next x hx =>
    have hphase : Triple (Live oneLoop x
      (started oneLoop (itemBodies state 0) [.advance (itemBodies state 1) none]))
        (poll_phase (itemBodies state 2) x) (fun _ => Live oneLoop x _) (Live oneLoop x _) :=
      triple_poll_phase (itemBodies state 2)
    exact hmoves.trans (hphase.state (.start hx)).moves

/-- The row of the loop node. -/
def eachRow (w : World) : NodeExec := ((w.rows.find? (·.node_key = "each")).getD default)

theorem eachRow_mem {w : World} (h : (w.rows.find? (·.node_key = "each")).isSome = true) :
    eachRow w ∈ w.rows := by
  obtain ⟨r, hr⟩ := Option.isSome_iff_exists.mp h
  rw [eachRow, hr]
  exact List.mem_of_find?_eq_some hr

/-- A whole number in a JSON value. -/
def whole : Json → Option Int
  | .int k => some k
  | _ => none

theorem whole_eq_some {v : Json} {k : Int} (h : whole v = some k) : v = .int k := by
  cases v with
  | int n => exact congrArg Json.int (Option.some.inj h)
  | _ => cases h

/-- The world after a computation that returns. -/
theorem run_eq {α : Type} {m : RunnerM α} {w : World} {a : α} (h : (m w).1 = .ok a) :
    m w = (.ok a, (m w).2) :=
  Prod.ext h rfl

/-- What the second tick finds: a loop over two items with one finished child for each of them. -/
theorem two_items_found :
    let w := bodiesPolled none
    let parent := eachRow w
    (w.rows.find? (·.node_key = "each")).isSome = true ∧ (loop_items parent).length = 2 ∧
      (∀ r ∈ child_rows w.rows parent.node_key, ∃ i < 2, ChildOf parent i r) ∧
      (∀ i < 2, ∃ r ∈ w.rows, ChildOf parent i r) ∧
      (∀ i < 2, ∀ item ∈ (loop_items parent)[i]?, ∀ c ∈ w.rows, ChildOf parent i c →
        whole (getJson c.adapter_state "loop_index") = some (i : Int) ∧
          whole (getJson c.adapter_state "loop_item") = some (7 + i : Int) ∧
          whole item = some (7 + i : Int)) ∧
      (_aggregate_loop_children (itemBodies none 2) parent w).1 = .ok 1 := by
  decide +kernel

/-- Where the adapter keeps nothing, each child still has its index and item. -/
theorem bodiesPolled_undisturbed :
    Undisturbed (bodiesPolled none).rows (eachRow (bodiesPolled none)) := by
  obtain ⟨-, hlength, hown, hall, hcarries, -⟩ := two_items_found
  refine undisturbed_of_le_ten (by omega) (hlength.symm ▸ hown) (hlength.symm ▸ hall)
    fun i item c hitem hc hchild => ?_
  have hi : i < 2 := hlength ▸ (List.getElem?_eq_some_iff.mp hitem).1
  obtain ⟨hindex, hcarried, hvalue⟩ := hcarries i hi item hitem c hc hchild
  exact ⟨whole_eq_some hindex, (whole_eq_some hcarried).trans (whole_eq_some hvalue).symm⟩

/-- Two children that still carry their index and item. -/
theorem two_items_exact :
    ∃ stored ∈ (_aggregate_loop_children (itemBodies none 2)
      (eachRow (bodiesPolled none)) (bodiesPolled none)).2.rows,
        stored.pk = (eachRow (bodiesPolled none)).pk ∧
        Exact (bodiesPolled none).rows (eachRow (bodiesPolled none)) stored :=
  (loop_results_exact_iff (bodiesPolled_moves none) (eachRow_mem two_items_found.1)
    (run_eq two_items_found.2.2.2.2.2)).mpr bodiesPolled_undisturbed

/-- What the adapter of the command nodes keeps. -/
def ownState : Option (Dict String Json) := some [("ops_execution_id", .int 5)]

/-- What the second tick finds then: the first child has no index any more. -/
theorem own_state_found :
    let w := bodiesPolled ownState
    let parent := eachRow w
    (w.rows.find? (·.node_key = "each")).isSome = true ∧
      (_aggregate_loop_children (itemBodies ownState 2) parent w).1 = .ok 1 ∧
      is_loop_parent parent = true ∧
      (loop_items parent)[0]?.isSome = true ∧ 0 < (loop_items parent).length ∧
      (text_order (loop_items parent).length)[0]? = some 0 ∧
      ∀ c ∈ w.rows, ChildOf parent 0 c → whole (getJson c.adapter_state "loop_index") = none := by
  decide +kernel

/-- An adapter that keeps a state of its own takes index and item away. -/
theorem own_state_inexact : ¬ ∀ (ver : DagVersion) (env : Env) (w w' : World) (parent : NodeExec),
    Moves ver .initial w → parent ∈ w.rows → is_loop_parent parent = true →
      _aggregate_loop_children env parent w = (.ok 1, w') →
        ∃ stored ∈ w'.rows, stored.pk = parent.pk ∧ Exact w.rows parent stored := by
  intro h
  obtain ⟨hsome, hone, hloop, hfirst, hpositive, hplace, hgone⟩ := own_state_found
  have hmem : eachRow (bodiesPolled ownState) ∈ (bodiesPolled ownState).rows := eachRow_mem hsome
  have hmoves := bodiesPolled_moves ownState
  have hexact := h _ _ _ _ _ hmoves hmem hloop (run_eq hone)
  have hclean :=
    (aggregation_exact_iff (hmoves.ordered List.Pairwise.nil) hmem (run_eq hone)).mp hexact
  obtain ⟨item, hitem⟩ := Option.isSome_iff_exists.mp hfirst
  obtain ⟨c, hc, hchild⟩ := hclean.all 0 hpositive
  obtain ⟨⟨hindex, -⟩, -⟩ := hclean.carried 0 0 item c c hplace hitem hc hchild hc hchild
  have hnone := hgone c hc hchild
  rw [hindex] at hnone
  cases hnone

end taurus.engine.runner
