import Mathlib.Data.List.Chain
import Mathlib.Data.List.DropRight
import Taurus.Utils.CrlManager

namespace taurus.crl_manager

open taurus.python

def serial_line (serial : List Char) : List Char := "    ".toList ++ serial_label ++ ' ' :: serial

def date_line (date : List Char) : List Char := "        ".toList ++ date_label ++ ' ' :: date

/-- A line without the labels of an entry. -/
structure Plain (line : List Char) : Prop where
  one_line : '\n' ∉ line
  no_serial : ¬ serial_label <:+: line
  no_date : ¬ date_label <:+: line

/-- A revoked certificate as the text shows it. -/
structure Entry where
  serial : List Char
  date : List Char
  extensions : List (List Char) := []
  serial_ne : serial ≠ []
  serial_hex : ∀ c ∈ serial, is_hex_digit c = true
  date_stripped : strip date = date
  date_one_line : '\n' ∉ date
  date_no_serial : ¬ serial_label <:+: date_line date
  extensions_plain : ∀ line ∈ extensions, Plain line

/-- A revocation list: its entries between the lines about the list and those about
its signature. -/
structure Printed where
  header : List (List Char) := []
  entries : List Entry
  trailer : List (List Char) := []
  header_plain : ∀ line ∈ header, Plain line
  trailer_plain : ∀ line ∈ trailer, Plain line

def Entry.lines (e : Entry) : List (List Char) :=
  serial_line e.serial :: date_line e.date :: e.extensions

def entry_lines (entries : List Entry) : List (List Char) := entries.flatMap Entry.lines

namespace Printed

variable (crl : Printed)

def lines : List (List Char) := crl.header ++ entry_lines crl.entries ++ crl.trailer

/-- What `openssl crl -text` writes. -/
def text : List Char := crl.lines.flatMap (· ++ ['\n'])

def printed : Option CompletedProcess := some { returncode := 0, stdout := crl.text }

end Printed

/-! What stands in the lines. -/

theorem strip_strip (s : List Char) : strip (strip s) = strip s := by
  have hstrip : ∀ t, strip t = (t.dropWhile isspace).rdropWhile isspace := fun t => rfl
  have hleft : (strip s).dropWhile isspace = strip s := by
    rw [List.dropWhile_eq_self_iff]
    intro hpos
    have hprefix : strip s <+: s.dropWhile isspace := List.rdropWhile_prefix _ _
    have hne : 0 < (s.dropWhile isspace).length := hpos.trans_le hprefix.length_le
    have hself : (s.dropWhile isspace).dropWhile isspace = s.dropWhile isspace :=
      List.dropWhile_idempotent _ _
    rw [List.dropWhile_eq_self_iff] at hself
    have hfirst := hprefix.getElem hpos
    simpa [hfirst] using hself hne
  rw [hstrip (strip s), hleft, hstrip s, List.rdropWhile_idempotent]

theorem Plain.isInfix {line : List Char} (h : Plain line) :
    isInfix serial_label line = false ∧ isInfix date_label line = false := by
  have hserial := h.no_serial
  have hdate := h.no_date
  rw [← isInfix_iff, Bool.not_eq_true] at hserial hdate
  exact ⟨hserial, hdate⟩

/-- Lines in which no entry begins, and no date stands. -/
def NoLabels (lines : List (List Char)) : Prop :=
  ∀ line ∈ lines, isInfix serial_label line = false ∧ isInfix date_label line = false

/-- A text with a label has its letters. -/
theorem no_label_of_not_mem {label line : List Char} {c : Char} (hc : c ∈ label) (h : c ∉ line) :
    ¬ label <:+: line :=
  fun hlabel => h (hlabel.subset hc)

theorem hex_range {c : Char} (h : is_hex_digit c = true) :
    (48 ≤ c.toNat ∧ c.toNat ≤ 57) ∨ (97 ≤ c.toNat ∧ c.toNat ≤ 102) ∨
      (65 ≤ c.toNat ∧ c.toNat ≤ 70) := by
  simpa [is_hex_digit, Char.isDigit, Char.le_def, UInt32.le_iff_toNat_le, or_assoc] using h

theorem ne_of_is_hex_digit {c d : Char} (h : is_hex_digit c = true)
    (hd : is_hex_digit d = false) : c ≠ d := by
  rintro rfl
  rw [hd] at h
  cases h

theorem isspace_of_is_hex_digit {c : Char} (h : is_hex_digit c = true) : isspace c = false := by
  have hrange := hex_range h
  have hne : ∀ n, 102 < n → (c.toNat == n) = false := fun n hn => beq_eq_false_iff_ne.mpr (by omega)
  simp only [isspace, hne _ (by decide : 102 < 0x85), hne _ (by decide : 102 < 0xA0),
    hne _ (by decide : 102 < 0x1680), hne _ (by decide : 102 < 0x2028),
    hne _ (by decide : 102 < 0x2029), hne _ (by decide : 102 < 0x202F),
      hne _ (by decide : 102 < 0x205F), hne _ (by decide : 102 < 0x3000), Bool.or_false,
      Bool.or_eq_false_iff,
    Bool.and_eq_false_iff, decide_eq_false_iff_not]
  omega

theorem strip_space (s : List Char) : strip (' ' :: s) = strip s := rfl

namespace Entry

variable (e : Entry)

theorem not_mem_serial {c : Char} (h : is_hex_digit c = false) : c ∉ e.serial :=
  fun hc => ne_of_is_hex_digit (e.serial_hex c hc) h rfl

/-- The serial of an entry is read back from its line. -/
theorem strip_serial : strip ((splitOn ':' (serial_line e.serial)).getD 1 []) = e.serial := by
  have hsplit : splitOn ':' (serial_line e.serial) =
      ["    Serial Number".toList, ' ' :: e.serial] := by
    have hrest : ':' ∉ ' ' :: e.serial :=
      List.not_mem_cons_of_ne_of_not_mem (by decide) (e.not_mem_serial rfl)
    rw [← splitOn_none hrest]
    exact splitOn_append (w := "    Serial Number".toList) (by decide) (' ' :: e.serial)
  rw [hsplit, List.getD_cons_succ, List.getD_cons_zero, strip_space]
  exact trim_of_forall fun c hc => isspace_of_is_hex_digit (e.serial_hex c hc)

theorem after_colon_date : after_colon (date_line e.date) = e.date := by
  change strip (' ' :: e.date) = e.date
  rw [strip_space, e.date_stripped]

/-- A serial line has the label of serials only. -/
theorem serial_line_labels : isInfix serial_label (serial_line e.serial) = true ∧
    isInfix date_label (serial_line e.serial) = false := by
  constructor
  · exact isInfix_iff.mpr ⟨_, _, rfl⟩
  · rw [← Bool.not_eq_true, isInfix_iff]
    refine no_label_of_not_mem (c := 'R') (by decide +kernel) ?_
    exact List.not_mem_append (by decide +kernel)
      (List.not_mem_cons_of_ne_of_not_mem (by decide) (e.not_mem_serial rfl))

/-- A date line has that of dates only. -/
theorem date_line_labels : isInfix serial_label (date_line e.date) = false ∧
    isInfix date_label (date_line e.date) = true := by
  constructor
  · rw [← Bool.not_eq_true, isInfix_iff]
    exact e.date_no_serial
  · exact isInfix_iff.mpr ⟨_, _, rfl⟩

end Entry

/-! The scan of the lines. -/

/-- The date found so far, after one more line. -/
def date_after (date line : List Char) : List Char :=
  if isInfix date_label line then after_colon line else date

/-- Scanning a window looks for the date. -/
theorem foldl_scan_line (window : List (List Char)) (found : List Char × List Char) :
    (window.foldl scan_line found).1 = window.foldl date_after found.1 := by
  induction window generalizing found with
  | nil => rfl
  | cons line window ih => exact ih _

/-- A window without a date line keeps the date. -/
theorem foldl_date_after {window : List (List Char)}
    (h : ∀ line ∈ window, isInfix date_label line = false) (date : List Char) :
    window.foldl date_after date = date := by
  induction window with
  | nil => rfl
  | cons line window ih =>
    rw [List.forall_mem_cons] at h
    rw [List.foldl_cons, date_after, h.1]
    exact ih h.2

/-- Lines without a serial are passed over. -/
theorem revoked_list_append {lines : List (List Char)}
    (h : ∀ line ∈ lines, isInfix serial_label line = false) (rest : List (List Char)) :
    revoked_list (lines ++ rest) = revoked_list rest := by
  induction lines with
  | nil => rfl
  | cons line lines ih =>
    rw [List.forall_mem_cons] at h
    rw [List.cons_append, revoked_list, h.1]
    exact ih h.2

/-- The item of an entry. Its date is the last one among its own and those of the
three lines after that. -/
theorem revoked_list_entry (e : Entry) (rest : List (List Char)) :
    ∃ reason, revoked_list (e.lines ++ rest) =
      { serial := e.serial, revocation_date := ((e.extensions ++ rest).take 3).foldl date_after e.date, reason } ::
        revoked_list rest := by
  have hothers : revoked_list (date_line e.date :: (e.extensions ++ rest)) = revoked_list rest := by
    rw [revoked_list, e.date_line_labels.1]
    exact revoked_list_append (fun line hline => (e.extensions_plain line hline).isInfix.1) rest
  have hdate : (((date_line e.date :: (e.extensions ++ rest)).take 4).foldl scan_line ([], [])).1 =
      ((e.extensions ++ rest).take 3).foldl date_after e.date := by
    rw [foldl_scan_line, List.take_succ_cons, List.foldl_cons, date_after, e.date_line_labels.2,
      if_pos rfl, e.after_colon_date]
  rw [Entry.lines, List.cons_append, List.cons_append, revoked_list, e.serial_line_labels.1,
    if_pos rfl, hothers, e.strip_serial]
  rw [← hdate]
  generalize ((date_line e.date :: (e.extensions ++ rest)).take 4).foldl scan_line ([], []) = found
  exact ⟨found.2, rfl⟩

/-- The date that the item of an entry gets: that of the next entry, where it stands
in the next four lines. -/
def shown_date (e : Entry) : List Entry → List Char
  | [] => e.date
  | next :: _ => if e.extensions.length < 2 then next.date else e.date

/-- The items of a list of entries. -/
def shown : List Entry → List (List Char × List Char)
  | [] => []
  | e :: more => (e.serial, shown_date e more) :: shown more

section dates

variable {tail : List (List Char)}

/-- Between the extensions of an entry and its end there is no date. -/
theorem no_date_before_entry (htail : NoLabels tail) {lines : List (List Char)}
    (hlines : ∀ line ∈ lines, Plain line) (more : List Entry) :
    ∀ line ∈ (lines ++ (entry_lines more ++ tail)).take 1, isInfix date_label line = false := by
  intro line hline
  cases lines with
  | cons first lines =>
    obtain rfl := List.mem_singleton.mp hline
    exact (hlines line List.mem_cons_self).isInfix.2
  | nil =>
    cases more with
    | nil => exact (htail line (List.mem_of_mem_take hline)).2
    | cons next more =>
      obtain rfl := List.mem_singleton.mp hline
      exact next.serial_line_labels.2

/-- The date shown with an entry. -/
theorem date_of_entry (htail : NoLabels tail) (e : Entry) (more : List Entry) :
    ((e.extensions ++ (entry_lines more ++ tail)).take 3).foldl date_after e.date =
      shown_date e more := by
  have hplain : ∀ line ∈ e.extensions, isInfix date_label line = false :=
    fun line hline => (e.extensions_plain line hline).isInfix.2
  cases more with
  | nil =>
    refine foldl_date_after (fun line hline => ?_) e.date
    obtain hext | hrest := List.mem_append.mp (List.mem_of_mem_take hline)
    · exact hplain line hext
    · exact (htail line hrest).2
  | cons next more =>
    -- the next entry's lines come right after the extensions
    have hnext : ∀ window, (∀ line ∈ window, isInfix date_label line = false) →
        (serial_line next.serial :: date_line next.date :: window).foldl date_after e.date =
          next.date := by
      intro window hwindow
      rw [List.foldl_cons, date_after, next.serial_line_labels.2, List.foldl_cons, date_after,
        next.date_line_labels.2, if_pos rfl, next.after_colon_date]
      exact foldl_date_after hwindow _
    have hlines : entry_lines (next :: more) ++ tail =
        serial_line next.serial :: date_line next.date ::
        (next.extensions ++ (entry_lines more ++ tail)) := by
      simp [entry_lines, Entry.lines]
    rw [shown_date]
    match hext : e.extensions with
    | [] =>
      rw [List.nil_append, hlines, if_pos (by simp)]
      exact hnext _ (no_date_before_entry htail next.extensions_plain more)
    | [x] =>
      have hx : isInfix date_label x = false :=
        hplain x (by rw [hext]; exact List.mem_singleton_self x)
      rw [hlines, if_pos (by simp)]
      change (x :: [serial_line next.serial, date_line next.date]).foldl date_after e.date =
        next.date
      rw [List.foldl_cons, date_after, hx]
      exact hnext [] (List.forall_mem_nil _)
    | x :: y :: exts =>
      rw [hext] at hplain
      have hrest : ∀ line ∈ exts, Plain line := fun line hline => e.extensions_plain line (by
        rw [hext]
        exact List.mem_cons_of_mem _ (List.mem_cons_of_mem _ hline))
      rw [if_neg (by simp)]
      change (x :: y :: (exts ++
        (entry_lines (next :: more) ++ tail)).take 1).foldl date_after e.date = e.date
      refine foldl_date_after (fun line hline => ?_) e.date
      obtain rfl | rfl | hline := List.mem_cons.mp hline |>.imp_right List.mem_cons.mp
      · exact hplain line List.mem_cons_self
      · exact hplain line (List.mem_cons_of_mem _ List.mem_cons_self)
      · exact no_date_before_entry htail hrest (next :: more) line hline

/-- The list shows every entry. -/
theorem revoked_list_entries (htail : NoLabels tail) (entries : List Entry) :
    (revoked_list (entry_lines entries ++ tail)).map
      (fun item => (item.serial, item.revocation_date)) = shown entries := by
  induction entries with
  | nil =>
    have hnone := revoked_list_append (fun line hline => (htail line hline).1) []
    rw [List.append_nil] at hnone
    rw [entry_lines, List.flatMap_nil, List.nil_append, hnone]
    rfl
  | cons e more ih =>
    have hlines : entry_lines (e :: more) ++ tail = e.lines ++ (entry_lines more ++ tail) := by
      rw [entry_lines, List.flatMap_cons, List.append_assoc]
      rfl
    obtain ⟨reason, hitem⟩ := revoked_list_entry e (entry_lines more ++ tail)
    rw [hlines, hitem, List.map_cons, ih, date_of_entry htail, shown]

end dates

/-- Every entry has two lines of extensions, or the date of the one after it. -/
theorem shown_eq_iff (entries : List Entry) :
    shown entries = entries.map (fun e => (e.serial, e.date)) ↔
    entries.IsChain fun e next => 2 ≤ e.extensions.length ∨ e.date = next.date := by
  induction entries with
  | nil => simp [shown]
  | cons e more ih =>
    rw [shown, List.map_cons, List.cons.injEq, Prod.mk.injEq, and_iff_right rfl, ih]
    cases more with
    | nil => simp [shown_date]
    | cons next more =>
      rw [List.isChain_cons_cons, shown_date]
      refine and_congr_left fun _ => ?_
      split_ifs with hshort
      · rw [or_iff_right (by omega), eq_comm]
      · rw [or_iff_left_of_imp fun _ => by omega]
        exact iff_of_true rfl (by omega)

/-! The serials that the regular expression finds. -/

theorem serial_label_eq : serial_label = 'S' :: "erial Number:".toList := by decide +kernel

theorem found_serials_append_of_not_mem {xs : List Char} (h : 'S' ∉ xs) (rest : List Char) :
    found_serials (xs ++ rest) = found_serials rest := by
  induction xs with
  | nil => rfl
  | cons c xs ih =>
    rw [List.mem_cons, not_or] at h
    have hnone : afterPrefix serial_label (c :: (xs ++ rest)) = none := by
      rw [serial_label_eq, afterPrefix, if_neg h.1]
    rw [List.cons_append, found_serials, hnone]
    exact ih h.2

/-- No label begins in a line without it. -/
theorem afterPrefix_serial_label {line : List Char} (h : ¬ serial_label <:+: line)
    (rest : List Char) :
    afterPrefix serial_label (line ++ '\n' :: rest) = none := by
  rw [Option.eq_none_iff_forall_ne_some]
  intro after hafter
  obtain ⟨u, hlabel, hu⟩ | ⟨u, hline, -⟩ :=
    List.append_eq_append_iff.mp (afterPrefix_eq_some_iff.mp hafter)
  · cases u with
    | nil =>
      rw [List.append_nil] at hlabel
      exact h (hlabel ▸ List.infix_rfl)
    | cons c u =>
      obtain ⟨rfl, -⟩ := List.cons.inj hu
      exact absurd (hlabel ▸ List.mem_append_right _ List.mem_cons_self : '\n' ∈ serial_label)
        (by decide +kernel)
  · exact h (hline ▸ (List.prefix_append _ _).isInfix)

theorem found_serials_line {line : List Char} (h : ¬ serial_label <:+: line) (rest : List Char) :
    found_serials (line ++ '\n' :: rest) = found_serials rest := by
  have hnone := afterPrefix_serial_label h rest
  induction line with
  | nil =>
    rw [List.nil_append, found_serials]
    rw [List.nil_append] at hnone
    rw [hnone]
  | cons c line ih =>
    have hline : ¬ serial_label <:+: line :=
      fun hlabel => h (hlabel.trans (List.suffix_cons c line).isInfix)
    rw [List.cons_append] at hnone ⊢
    rw [found_serials, hnone]
    exact ih hline (afterPrefix_serial_label hline rest)

/-- No serial is found in other lines. -/
theorem found_serials_lines {lines : List (List Char)}
    (h : ∀ line ∈ lines, ¬ serial_label <:+: line) (rest : List Char) :
    found_serials (lines.flatMap (· ++ ['\n']) ++ rest) = found_serials rest := by
  induction lines with
  | nil => rfl
  | cons line lines ih =>
    rw [List.forall_mem_cons] at h
    rw [List.flatMap_cons, List.append_assoc, List.append_assoc, List.singleton_append,
      found_serials_line h.1]
    exact ih h.2

theorem found_serials_serial_line (e : Entry) (rest : List Char) :
    found_serials (serial_line e.serial ++ '\n' :: rest) = e.serial :: found_serials rest := by
  have hspace : ∀ c ∈ e.serial, isspace c = false :=
    fun c hc => isspace_of_is_hex_digit (e.serial_hex c hc)
  have hdigits : ((' ' :: (e.serial ++ '\n' :: rest)).dropWhile isspace).takeWhile is_hex_digit =
      e.serial := by
    have hdrop : (e.serial ++ '\n' :: rest).dropWhile isspace = e.serial ++ '\n' :: rest := by
      cases hserial : e.serial with
      | nil => exact absurd hserial e.serial_ne
      | cons c cs =>
        rw [hserial] at hspace
        exact List.dropWhile_cons_of_neg (by simp [hspace c List.mem_cons_self])
    rw [List.dropWhile_cons_of_pos rfl, hdrop, List.takeWhile_append_of_pos e.serial_hex,
      List.takeWhile_cons_of_neg (by decide), List.append_nil]
  have htext : serial_line e.serial ++ '\n' :: rest =
      "    ".toList ++ 'S' :: ("erial Number:".toList ++ ' ' :: (e.serial ++ '\n' :: rest)) := by
    simp only [serial_line, serial_label_eq, List.append_assoc, List.cons_append]
  have hafter : afterPrefix serial_label
    ('S' :: ("erial Number:".toList ++ ' ' :: (e.serial ++ '\n' :: rest))) =
      some (' ' :: (e.serial ++ '\n' :: rest)) := by
    rw [serial_label_eq]
    exact afterPrefix_append _ _
  have hrest : found_serials ("erial Number:".toList ++ ' ' :: (e.serial ++ '\n' :: rest)) =
      found_serials rest := by
    rw [found_serials_append_of_not_mem (by decide +kernel), ← List.singleton_append,
      found_serials_append_of_not_mem (by decide),
      found_serials_append_of_not_mem (e.not_mem_serial rfl), ← List.singleton_append,
        found_serials_append_of_not_mem (by decide)]
  rw [htext, found_serials_append_of_not_mem (by decide +kernel), found_serials, hafter]
  simp only [hdigits, if_neg e.serial_ne, hrest]

/-- The serials found are those of the entries. -/
theorem found_serials_entries (entries : List Entry) (rest : List Char) :
    found_serials ((entry_lines entries).flatMap (· ++ ['\n']) ++ rest) =
      entries.map (·.serial) ++ found_serials rest := by
  induction entries with
  | nil => rfl
  | cons e more ih =>
    have hothers : ∀ line ∈ date_line e.date :: e.extensions, ¬ serial_label <:+: line := by
      rw [List.forall_mem_cons]
      exact ⟨e.date_no_serial, fun line hline => (e.extensions_plain line hline).no_serial⟩
    have hlines : (entry_lines (e :: more)).flatMap (· ++ ['\n']) ++ rest =
      serial_line e.serial ++ '\n' ::
        ((date_line e.date :: e.extensions).flatMap (· ++ ['\n']) ++
        ((entry_lines more).flatMap (· ++ ['\n']) ++ rest)) := by
      simp [entry_lines, Entry.lines]
    rw [hlines, found_serials_serial_line, found_serials_lines hothers, ih, List.map_cons,
      List.cons_append]

theorem Printed.found_serials (crl : Printed) :
    found_serials crl.text = crl.entries.map (·.serial) := by
  have htrailer :=
    found_serials_lines (fun line hline => (crl.trailer_plain line hline).no_serial) []
  have htext : crl.text = crl.header.flatMap (· ++ ['\n']) ++
      ((entry_lines crl.entries).flatMap (· ++ ['\n']) ++
      (crl.trailer.flatMap (· ++ ['\n']) ++ [])) := by
    simp [Printed.text, Printed.lines]
  rw [htext, found_serials_lines fun line hline => (crl.header_plain line hline).no_serial,
    found_serials_entries, htrailer]
  exact List.append_nil _

/-! The whole text. -/

/-- The text is split into its lines. -/
theorem splitOn_lines {lines : List (List Char)} (h : ∀ line ∈ lines, '\n' ∉ line) :
    splitOn '\n' (lines.flatMap (· ++ ['\n'])) = lines ++ [[]] := by
  induction lines with
  | nil => rfl
  | cons line lines ih =>
    rw [List.forall_mem_cons] at h
    rw [List.flatMap_cons, List.append_assoc, List.singleton_append, splitOn_append h.1, ih h.2,
      List.cons_append]

namespace Printed

variable (crl : Printed)

theorem lines_one_line : ∀ line ∈ crl.lines, '\n' ∉ line := by
  intro line hline
  rw [lines, List.mem_append, List.mem_append] at hline
  obtain (hheader | hentry) | htrailer := hline
  · exact (crl.header_plain line hheader).one_line
  · obtain ⟨e, -, hline⟩ := List.mem_flatMap.mp hentry
    obtain rfl | hline := List.mem_cons.mp hline
    · exact List.not_mem_append (by decide +kernel)
        (List.not_mem_cons_of_ne_of_not_mem (by decide) (e.not_mem_serial rfl))
    · obtain rfl | hline := List.mem_cons.mp hline
      · exact List.not_mem_append (by decide +kernel)
          (List.not_mem_cons_of_ne_of_not_mem (by decide) e.date_one_line)
      · exact (e.extensions_plain line hline).one_line
  · exact (crl.trailer_plain line htrailer).one_line

/-- The certificates listed are the entries shown. -/
theorem get_revoked_certificates_eq :
    (get_revoked_certificates true crl.printed).map
      (fun item => (item.serial, item.revocation_date)) = shown crl.entries := by
  have htail : NoLabels (crl.trailer ++ [[]]) := by
    intro line hline
    obtain htrailer | hlast := List.mem_append.mp hline
    · exact (crl.trailer_plain line htrailer).isInfix
    · obtain rfl := List.mem_singleton.mp hlast
      have hempty : serial_label.isEmpty = false ∧ date_label.isEmpty = false := by decide +kernel
      exact hempty
  have hget : get_revoked_certificates true crl.printed =
    revoked_list (splitOn '\n' crl.text) := rfl
  rw [hget, text, splitOn_lines crl.lines_one_line, lines, List.append_assoc, List.append_assoc,
    revoked_list_append fun line hline => (crl.header_plain line hline).isInfix.1]
  exact revoked_list_entries htail crl.entries

/-- A certificate is revoked exactly if an entry has its serial. -/
theorem check_certificate_revoked_iff (certificate_serial : List Char) :
    check_certificate_revoked true crl.printed certificate_serial = true ↔
      ∃ e ∈ crl.entries, ∃ n, int_16? e.serial = some n ∧ int_16? certificate_serial = some n := by
  have hstrip : int_16? (strip certificate_serial) = int_16? certificate_serial := by
    rw [int_16?, int_16?, strip_strip]
  have hcheck : check_certificate_revoked true crl.printed certificate_serial =
    (int_16? (strip certificate_serial)).any
      fun target => (taurus.crl_manager.found_serials crl.text).any fun digits => int_16? digits =
          some target := by
    unfold check_certificate_revoked
    cases hserial : int_16? (strip certificate_serial) with
    | none => simp [printed]
    | some target => simp [printed]
  rw [hcheck, hstrip, crl.found_serials]
  cases hserial : int_16? certificate_serial with
  | none =>
    refine iff_of_false nofun ?_
    rintro ⟨e, -, n, -, hn⟩
    cases hn
  | some target =>
    constructor
    · intro h
      obtain ⟨digits, hdigits, hsame⟩ := List.any_eq_true.mp h
      obtain ⟨e, he, rfl⟩ := List.mem_map.mp hdigits
      exact ⟨e, he, target, of_decide_eq_true hsame, rfl⟩
    · rintro ⟨e, he, n, hn, hsame⟩
      obtain rfl := Option.some.inj hsame
      exact List.any_eq_true.mpr ⟨e.serial, List.mem_map_of_mem he, decide_eq_true hn⟩

/-- The list of revoked certificates is what the text says, and the check agrees with it. -/
def ParsedExactly : Prop :=
  (get_revoked_certificates true crl.printed).map
    (fun item => (item.serial, item.revocation_date)) =
      crl.entries.map (fun e => (e.serial, e.date)) ∧
    ∀ certificate_serial, check_certificate_revoked true crl.printed certificate_serial = true ↔
      ∃ item ∈ get_revoked_certificates true crl.printed,
        ∃ n, int_16? item.serial = some n ∧ int_16? certificate_serial = some n

/-- An entry keeps its date where at least two lines of extensions follow it, or the next
one has the same date. -/
theorem parsed_exactly_iff :
    crl.ParsedExactly ↔ crl.entries.IsChain fun e next => 2 ≤ e.extensions.length ∨
      e.date = next.date := by
  rw [ParsedExactly, crl.get_revoked_certificates_eq, shown_eq_iff]
  refine and_iff_left fun certificate_serial => ?_
  have hserials : (get_revoked_certificates true crl.printed).map (·.serial) =
      crl.entries.map (·.serial) := by
    have hshown : ∀ entries, (shown entries).map (·.1) = entries.map (·.serial) := by
      intro entries
      induction entries with
      | nil => rfl
      | cons e more ih => rw [shown, List.map_cons, List.map_cons, ih]
    rw [← hshown, ← get_revoked_certificates_eq, List.map_map]
    rfl
  rw [check_certificate_revoked_iff]
  constructor
  · rintro ⟨e, he, hsame⟩
    have hmem : e.serial ∈ (get_revoked_certificates true crl.printed).map (·.serial) :=
      hserials ▸ List.mem_map_of_mem he
    obtain ⟨item, hitem, hserial⟩ := List.mem_map.mp hmem
    exact ⟨item, hitem, hserial ▸ hsame⟩
  · rintro ⟨item, hitem, hsame⟩
    have hmem : item.serial ∈ crl.entries.map (·.serial) := hserials ▸ List.mem_map_of_mem hitem
    obtain ⟨e, he, hserial⟩ := List.mem_map.mp hmem
    exact ⟨e, he, hserial ▸ hsame⟩

/-- Two certificates that were revoked in January and in February. -/
def january : Entry where
  serial := "0A".toList
  date := "Jan  1 00:00:00 2025 GMT".toList
  serial_ne := by decide
  serial_hex := by decide +kernel
  date_stripped := by decide +kernel
  date_one_line := by decide +kernel
  date_no_serial := no_label_of_not_mem (c := 'S') (by decide +kernel) (by decide +kernel)
  extensions_plain := List.forall_mem_nil _

def february : Entry where
  serial := "0B".toList
  date := "Feb  1 00:00:00 2025 GMT".toList
  serial_ne := by decide
  serial_hex := by decide +kernel
  date_stripped := by decide +kernel
  date_one_line := by decide +kernel
  date_no_serial := no_label_of_not_mem (c := 'S') (by decide +kernel) (by decide +kernel)
  extensions_plain := List.forall_mem_nil _

/-- The first one is listed with the date of the second. -/
theorem january_listed_for_february : ¬ ∀ crl : Printed, crl.ParsedExactly := by
  intro h
  let crl : Printed :=
    { entries := [january, february], header_plain := List.forall_mem_nil _, trailer_plain := List.forall_mem_nil _ }
  have hlisted : (get_revoked_certificates true crl.printed).map
    (fun item => (item.serial, item.revocation_date)) =
      [(january.serial, february.date), (february.serial, february.date)] := by decide +kernel
  have hdates : february.date = january.date := by
    have hparsed := (h crl).1
    rw [hlisted] at hparsed
    exact (Prod.mk.inj (List.cons.inj hparsed).1).2
  exact absurd hdates (by decide +kernel)

end Printed

end taurus.crl_manager
