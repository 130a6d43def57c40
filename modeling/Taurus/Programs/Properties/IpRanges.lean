import Taurus.Lib.Dotted
import Taurus.Programs.Policy

namespace taurus.programs

open taurus.lib taurus.python taurus.engine

/-- An IPv4 address. -/
structure IPv4 where
  a : Fin 256
  b : Fin 256
  c : Fin 256
  d : Fin 256

namespace IPv4

def octets (ip : IPv4) : List Nat := [ip.a, ip.b, ip.c, ip.d]

/-- The address in dotted decimal notation, without leading zeros. -/
def text (ip : IPv4) : String := String.ofList (dotted.text ip.octets)

/-- The address as a number of 32 bits. -/
def value (ip : IPv4) : Nat := dotted.value 256 ip.octets

/-- In the first place where the addresses differ, the texts of the numbers stand in
another order than these. -/
def Misordered (x y : IPv4) : Prop := dotted.Misordered x.octets y.octets

instance : DecidableRel Misordered := fun x y => by unfold Misordered; infer_instance

variable {x y : IPv4}

theorem octets_lt (ip : IPv4) : ∀ n ∈ ip.octets, n < 256 := by
  intro n hn
  simp only [octets, List.mem_cons, List.not_mem_nil, or_false] at hn
  obtain rfl | rfl | rfl | rfl := hn
  all_goals exact Fin.isLt _

/-- Texts of addresses are ordered as the addresses, unless they are misordered. -/
theorem text_lt_iff (x y : IPv4) : x.text < y.text ↔ (x.value < y.value ↔ ¬ Misordered x y) := by
  rw [String.lt_iff_toList_lt, text, text, String.toList_ofList, String.toList_ofList]
  exact dotted.text_lt_iff_value rfl x.octets_lt y.octets_lt

/-- An address is given by its text. -/
theorem text_injective (h : x.text = y.text) : x = y := by
  have hoctets : x.octets = y.octets := dotted.text_injective rfl (String.ofList_injective h)
  obtain ⟨a, b, c, d⟩ := x
  obtain ⟨a', b', c', d'⟩ := y
  simpa [octets, Fin.val_inj] using hoctets

end IPv4

/-- The address lies numerically between the bounds. -/
def InRange (low high : IPv4) (host_ip : Option String) : Prop :=
  ∃ ip : IPv4, host_ip = some ip.text ∧ low.value ≤ ip.value ∧ ip.value ≤ high.value

/-- An address in the range is misordered with neither bound; one outside lies beyond a bound with
which it is not misordered, or is misordered with a bound that it does not lie beyond. -/
def RightlyPlaced (low high ip : IPv4) : Prop :=
  if low.value ≤ ip.value ∧ ip.value ≤ high.value then
    ¬ IPv4.Misordered ip low ∧ ¬ IPv4.Misordered high ip
  else (ip.value < low.value ↔ ¬ IPv4.Misordered ip low) ∨
    (high.value < ip.value ↔ ¬ IPv4.Misordered high ip)

instance (low high ip : IPv4) : Decidable (RightlyPlaced low high ip) := by
  unfold RightlyPlaced; infer_instance

/-- An address is rightly placed, and another text does not stand between those of the bounds. -/
def Placed (low high : IPv4) (host_ip : Option String) : Prop :=
  (∀ ip : IPv4, host_ip = some ip.text → RightlyPlaced low high ip) ∧
    ∀ t, host_ip = some t → (∀ ip : IPv4, t ≠ ip.text) → ¬ (low.text ≤ t ∧ t ≤ high.text)

section

variable {py : Reprs} {db : Lookups} {hosts : List Host} {policy : ProgramInstallPolicy}
  {low high : IPv4} {host : Host}
  {others : Host → Bool}

/-- The texts select an address exactly as the range does, if it is rightly placed. -/
theorem between_address_iff (low high ip : IPv4) :
    ((low.text ≤ ip.text ∧ ip.text ≤ high.text) ↔ (low.value ≤ ip.value ∧ ip.value ≤ high.value)) ↔
      RightlyPlaced low high ip := by
  have hlow := IPv4.text_lt_iff ip low
  have hhigh := IPv4.text_lt_iff high ip
  unfold RightlyPlaced
  rw [← not_lt, ← not_lt, hlow, hhigh]
  split_ifs with hin
  · have hnlow : ¬ ip.value < low.value := not_lt.mpr hin.1
    have hnhigh : ¬ high.value < ip.value := not_lt.mpr hin.2
    simp only [hnlow, hnhigh, hin, false_iff, not_not, and_self, iff_true]
  · rw [iff_false_right hin, not_and_or, not_not, not_not]

/-- An address is placed by its text exactly if rightly so. -/
theorem placed_text_iff {ip : IPv4} :
    Placed low high (some ip.text) ↔ RightlyPlaced low high ip := by
  constructor
  · exact fun h => h.1 ip rfl
  · intro h
    constructor
    · exact fun ip' htext => IPv4.text_injective (Option.some.inj htext) ▸ h
    · exact fun t htext hnone => absurd (Option.some.inj htext).symm (hnone ip)

/-- The text comparison tells the range exactly for what is placed. -/
theorem between_iff (low high : IPv4) (host : Host) :
    (host_ip_between low.text high.text host = true ↔ InRange low high host.host_ip) ↔
      Placed low high host.host_ip := by
  unfold host_ip_between InRange Placed
  cases host.host_ip with
  | none => simp
  | some t =>
    rw [Option.any_some, decide_eq_true_eq]
    simp only [Option.some.injEq]
    by_cases haddress : ∃ ip : IPv4, t = ip.text
    · obtain ⟨ip, rfl⟩ := haddress
      have hsame : (∃ ip' : IPv4, ip.text = ip'.text ∧ low.value ≤ ip'.value ∧
        ip'.value ≤ high.value) ↔
          low.value ≤ ip.value ∧ ip.value ≤ high.value := by
        constructor
        · rintro ⟨ip', htext, hin⟩
          rwa [IPv4.text_injective htext]
        · exact fun hin => ⟨ip, rfl, hin⟩
      rw [hsame, between_address_iff]
      constructor
      · refine fun h => ⟨fun ip' htext => IPv4.text_injective htext ▸ h, fun t htext hnone => ?_⟩
        exact absurd htext.symm (hnone ip)
      · exact fun h => h.1 ip rfl
    · have hnone : ∀ ip : IPv4, t ≠ ip.text := fun ip htext => haddress ⟨ip, htext⟩
      have hout : ¬ ∃ ip : IPv4, t = ip.text ∧ low.value ≤ ip.value ∧ ip.value ≤ high.value := by
        rintro ⟨ip, htext, -⟩
        exact hnone ip htext
      rw [iff_false_right hout]
      constructor
      · refine fun h => ⟨fun ip htext => absurd htext (hnone ip), ?_⟩
        rintro _ rfl -
        exact h
      · exact fun h => h.2 t rfl hnone

/-- The matched hosts are exactly those that satisfy the other rules and lie in the range. -/
def ExactRange (py : Reprs) (db : Lookups) (hosts : List Host) (policy : ProgramInstallPolicy)
    (others : Host → Bool) (low high : IPv4) : Prop :=
  ∃ matched, _get_matched_hosts py db hosts policy = .ok matched ∧
    ∀ host, host ∈ matched ↔ host ∈ hosts ∧ others host = true ∧ InRange low high host.host_ip

/-- The hosts a policy matches, by its range and the rest. -/
theorem matched_eq (hrange : Dict.get? policy.match_rules "host_ip_range" =
  some (.arr [.str low.text, .str high.text]))
    (hothers : other_query db policy.match_rules = .ok others) :
    _get_matched_hosts py db hosts policy =
      .ok (hosts.filter fun host => others host && host_ip_between low.text high.text host) := by
  have hrules : policy.match_rules ≠ [] := by
    intro h
    rw [h] at hrange
    cases hrange
  unfold _get_matched_hosts range_query
  rw [if_neg hrules, hothers, hrange]
  rfl

/-- A range of addresses, with any other rules, selects exactly the hosts in it if and only if every
host that satisfies the other rules is placed rightly among the texts. -/
theorem ip_range_exact_iff (py : Reprs)
    (hrange : Dict.get? policy.match_rules "host_ip_range" =
      some (.arr [.str low.text, .str high.text]))
    (hothers : other_query db policy.match_rules = .ok others) :
    ExactRange py db hosts policy others low high ↔
      ∀ host ∈ hosts, others host = true → Placed low high host.host_ip := by
  unfold ExactRange
  rw [matched_eq hrange hothers]
  simp only [Except.ok.injEq, exists_eq_left', List.mem_filter, Bool.and_eq_true, ← between_iff]
  constructor
  · intro h host hhost hrest
    constructor
    · exact fun hbetween => ((h host).mp ⟨hhost, hrest, hbetween⟩).2.2
    · exact fun hin => ((h host).mpr ⟨hhost, hrest, hin⟩).2.2
  · intro h host
    constructor
    · exact fun ⟨hhost, hrest, hbetween⟩ => ⟨hhost, hrest, (h host hhost hrest).mp hbetween⟩
    · exact fun ⟨hhost, hrest, hin⟩ => ⟨hhost, hrest, (h host hhost hrest).mpr hin⟩

end

/-- Addresses of one small network. -/
def local_ip (d : Fin 256) : IPv4 := ⟨10, 0, 0, d⟩

def range_policy (low high : IPv4) : ProgramInstallPolicy where
  program_name := "taurus-executor"
  version := "2.0"
  status := 1
  match_rules := [("host_ip_range", .arr [.str low.text, .str high.text])]

def local_host (d : Fin 256) : Host := { id := d.val, host_ip := some (local_ip d).text }

def no_lookups : Lookups where
  exact _ _ _ := false
  host_ip_startswith _ _ := false
  host_name_icontains _ _ := false
  extra_info_icontains _ _ := false

/-- Addresses that end in numbers of one digit are selected rightly. -/
theorem one_digit_range_exact :
    ExactRange Reprs.short no_lookups [local_host 3, local_host 8]
      (range_policy (local_ip 2) (local_ip 5)) (fun _ => true)
      (local_ip 2) (local_ip 5) := by
  refine (ip_range_exact_iff Reprs.short rfl rfl).mpr fun host hhost _ => ?_
  simp only [List.mem_cons, List.not_mem_nil, or_false] at hhost
  obtain rfl | rfl := hhost
  · exact placed_text_iff.mpr (by decide +kernel)
  · exact placed_text_iff.mpr (by decide +kernel)

/-- The range from 10.0.0.2 to 10.0.0.20 does not select 10.0.0.10. -/
theorem ten_not_selected : ¬ ∀ (py : Reprs) (db : Lookups) (hosts : List Host)
    (policy : ProgramInstallPolicy) (low high : IPv4) (others : Host → Bool),
    Dict.get? policy.match_rules "host_ip_range" = some (.arr [.str low.text, .str high.text]) →
      other_query db policy.match_rules = .ok others →
        ExactRange py db hosts policy others low high := by
  intro h
  obtain ⟨matched, hmatched, hexact⟩ :=
    h Reprs.short no_lookups [local_host 10] (range_policy (local_ip 2) (local_ip 20))
    (local_ip 2) (local_ip 20) _ rfl rfl
  rw [matched_eq rfl rfl] at hmatched
  obtain rfl := Except.ok.inj hmatched
  have hin : InRange (local_ip 2) (local_ip 20) (local_host 10).host_ip :=
    ⟨local_ip 10, rfl, by decide, by decide⟩
  have hselected := (hexact (local_host 10)).mpr ⟨List.mem_singleton.mpr rfl, by decide, hin⟩
  exact absurd (List.mem_filter.mp hselected).2 (by decide +kernel)

end taurus.programs
