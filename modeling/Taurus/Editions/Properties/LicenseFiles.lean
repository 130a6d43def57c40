import Taurus.Editions.License
import Taurus.Editions.Properties.Clock

namespace taurus.editions

open taurus.lib taurus.lib.Prog taurus.python taurus.engine taurus.engine.views

section

variable (loads : String → Loads) (site : Site) (content : ByteArray)

/-- A signature that holds, over a payload whose date of expiry, if it is a text, can be read. -/
def SignedLicense : Prop :=
  ∃ text doc payload sig_b64, read_text content = .ok text ∧
  loads (String.ofList (strip text.toList)) = .value (.obj doc) ∧
    getJson doc "payload" = .obj payload ∧ getJson doc "signature_b64" = .str sig_b64 ∧
    site.verify_signature payload sig_b64 = .ok () ∧
    ∀ date, getJson payload "expires_at" = .str date →
      ∃ expires_dt, site.fromisoformat date = some expires_dt

/-- The file is read, and not taken from the cache. -/
def ReadsFile (p : Process) (path : String) (force_reload : Bool) : Prop :=
  force_reload = false → p._cache_path = some path → p._cache = none

/-- Wherever the file is read, the call has a status, which is blocked unless the
file is a signed license. -/
def BlocksBadFile (now : Time) : Prop :=
  ∀ p path force_reload, ReadsFile p path force_reload →
    ∃ status, (load_license_content loads site (some (path, content)) now force_reload p).1 =
    .ok status ∧
      (¬ SignedLicense loads site content → status.state = .blocked)

/-- A list, an object or a text, or a value that counts as none. -/
def Listable : Json → Prop
  | .arr _ => True
  | .obj _ => True
  | .str _ => True
  | v => v.truthy = false

/-- A text that is no JSON, or an object where the features of a signed payload can be listed. -/
def ReadableFile : Prop :=
  ∃ text, read_text content = .ok text ∧
    ((∃ e, loads (String.ofList (strip text.toList)) = .JSONDecodeError e) ∨
      ∃ doc, loads (String.ofList (strip text.toList)) = .value (.obj doc) ∧
        ∀ payload sig_b64, getJson doc "payload" = .obj payload →
        getJson doc "signature_b64" = .str sig_b64 →
          site.verify_signature payload sig_b64 = .ok () → Listable (getJson payload "features"))

end

section

variable {loads : String → Loads} {site : Site} {content : ByteArray}
  {raw : Except String Json} {now : Time}
  {p : Process} {path : String} {force_reload : Bool}

/-- The verdict on a content is the one on its document. -/
theorem content_verdict_of_doc (h : read_doc loads content = .ok raw) :
    content_verdict loads site content now = license_verdict site raw now := by
  unfold content_verdict verify_license_content
  rw [h]
  rfl

/-- How a licence file is loaded. -/
theorem load_license_content_file (hbypass : site.bypass = false) :
    load_license_content loads site (some (path, content)) now force_reload p =
      match (if force_reload = false ∧ p._cache_path = some path then p._cache else none) with
      | some status => (.ok status, p)
      | none => match content_verdict loads site content now with
        | .ok status => (.ok status, { _cache := some status, _cache_path := some path })
        | .error e => (.error e, p) := by
  unfold load_license_content
  rw [hbypass]
  simp only [Bool.false_eq_true, if_false, bind, andThen, getState, pure]
  cases (if force_reload = false ∧ p._cache_path = some path then p._cache else none) with
  | some status => rfl
  | none => cases content_verdict loads site content now <;> rfl

/-- A call that reads the file answers with the verdict on it. -/
theorem load_license_content_of_reads (hbypass : site.bypass = false)
    (hreads : ReadsFile p path force_reload) :
    (load_license_content loads site (some (path, content)) now force_reload p).1 =
      content_verdict loads site content now := by
  have hcache : (if force_reload = false ∧ p._cache_path = some path then p._cache
    else none) = none := by
    split_ifs with hhit
    · exact hreads hhit.1 hhit.2
    · rfl
  rw [load_license_content_file hbypass, hcache]
  cases content_verdict loads site content now <;> rfl

/-- When a payload is read. -/
theorem read_payload_eq_ok_iff {payload : Dict String Json} : read_payload site raw = .ok payload ↔
    ∃ doc sig_b64, raw = .ok (.obj doc) ∧ getJson doc "payload" = .obj payload ∧
      getJson doc "signature_b64" = .str sig_b64 ∧
      site.verify_signature payload sig_b64 = .ok () := by
  constructor
  · intro h
    unfold read_payload at h
    split at h
    · cases h
    · next doc =>
      split at h
      · next payload' sig_b64 hpayload hsig =>
        split at h
        · cases h
        · next hverified =>
          obtain rfl := Except.ok.inj h
          exact ⟨doc, sig_b64, rfl, hpayload, hsig, hverified⟩
      · cases h
    · cases h
  · rintro ⟨doc, sig_b64, rfl, hpayload, hsig, hverified⟩
    simp only [read_payload, hpayload, hsig, hverified]

/-- What is no object raises an exception of Python; everything else that is no signed
payload is a `LicenseError`. -/
theorem read_payload_error {e : Exn} (h : read_payload site raw = .error e) :
    (∃ v, raw = .ok v ∧ (∀ doc, v ≠ .obj doc) ∧
      e = .other "AttributeError" "object has no attribute 'get'") ∨
      ((∃ message, raw = .error message) ∨ ∃ doc, raw = .ok (.obj doc)) ∧
        ∃ message, e = LicenseError message := by
  unfold read_payload at h
  split at h
  · exact Or.inr ⟨Or.inl ⟨_, rfl⟩, _, (Except.error.inj h).symm⟩
  · next doc =>
    refine Or.inr ⟨Or.inr ⟨doc, rfl⟩, ?_⟩
    split at h
    · split at h
      · exact ⟨_, (Except.error.inj h).symm⟩
      · cases h
    · exact ⟨_, (Except.error.inj h).symm⟩
  · next v hobject => exact Or.inl ⟨v, rfl, hobject, (Except.error.inj h).symm⟩

theorem elements_error {v : Json} {e : Exn} (h : elements v = .error e) :
    ∃ message, e = .other "TypeError" message := by
  unfold elements at h
  split_ifs at h
  cases v with
  | bool _ => exact ⟨_, (Except.error.inj h).symm⟩
  | int _ => exact ⟨_, (Except.error.inj h).symm⟩
  | float _ => exact ⟨_, (Except.error.inj h).symm⟩
  | null => exact ⟨_, (Except.error.inj h).symm⟩
  | _ => cases h

/-- What has elements. -/
theorem listable_iff {v : Json} : (∃ features, elements v = .ok features) ↔ Listable v := by
  unfold elements
  cases htruthy : v.truthy with
  | true => cases v <;> simp [Listable, htruthy]
  | false => cases v <;> simp [Listable, htruthy]

/-- A verdict on a document is given if it is an object, and if the features of a signed
payload can be listed. -/
theorem license_verdict_returns_iff : (∃ status, license_verdict site raw now = .ok status) ↔
    (∃ message, raw = .error message) ∨
      ∃ doc, raw = .ok (.obj doc) ∧ ∀ payload, read_payload site raw = .ok payload →
      Listable (getJson payload "features") := by
  cases hpayload : read_payload site raw with
  | error e =>
    have hraises : verify_license_file site raw now = .error e := by
      unfold verify_license_file
      rw [hpayload]
      rfl
    unfold license_verdict
    rw [hraises]
    obtain ⟨v, rfl, hobject, rfl⟩ | ⟨hraw, message, rfl⟩ := read_payload_error hpayload
    · refine iff_of_false (by simp) ?_
      rintro (⟨message, hmessage⟩ | ⟨doc, hdoc, -⟩)
      · cases hmessage
      · exact hobject doc (Except.ok.inj hdoc)
    · refine iff_of_true ⟨_, rfl⟩ ?_
      obtain hraw | ⟨doc, hdoc⟩ := hraw
      · exact Or.inl hraw
      · exact Or.inr ⟨doc, hdoc, nofun⟩
  | ok payload =>
    obtain ⟨doc, sig_b64, rfl, -⟩ := read_payload_eq_ok_iff.mp hpayload
    cases hfeatures : elements (getJson payload "features") with
    | error e =>
      obtain ⟨message, rfl⟩ := elements_error hfeatures
      refine iff_of_false ?_ ?_
      · rintro ⟨status, hstatus⟩
        simp [license_verdict, verify_license_file, hpayload, hfeatures, bind,
          Except.bind] at hstatus
      · rintro (⟨message, hmessage⟩ | ⟨doc', -, hlisted⟩)
        · cases hmessage
        · obtain ⟨features, hlisted⟩ := listable_iff.mpr (hlisted payload rfl)
          rw [hfeatures] at hlisted
          cases hlisted
    | ok features =>
      refine iff_of_true ?_ (Or.inr ⟨doc, rfl, fun payload' hsame => ?_⟩)
      · unfold license_verdict verify_license_file
        simp only [hpayload, hfeatures, bind, Except.bind]
        cases hexpiry : check_expiry site (getJson payload "expires_at") now with
        | error e =>
          obtain ⟨message, rfl⟩ := check_expiry_error hexpiry
          exact ⟨_, rfl⟩
        | ok expiry =>
          cases expiry with
          | ended message => exact ⟨_, rfl⟩
          | holds state left warning =>
            simp only
            split_ifs <;> exact ⟨_, rfl⟩
      · obtain rfl := Except.ok.inj hsame
        exact listable_iff.mp ⟨features, hfeatures⟩

/-- A verdict on a document is to block, unless a signature holds and the date of
expiry can be read. -/
theorem blocked_of_unsigned {status : LicenseStatus} (h : license_verdict site raw now = .ok status)
    (hunsigned : ∀ payload, read_payload site raw = .ok payload →
      ∃ date, getJson payload "expires_at" = .str date ∧ site.fromisoformat date = none) :
    status.state = .blocked := by
  cases hpayload : read_payload site raw with
  | error e =>
    unfold license_verdict verify_license_file at h
    rw [hpayload] at h
    obtain ⟨v, rfl, hobject, rfl⟩ | ⟨hraw, message, rfl⟩ := read_payload_error hpayload
    · cases h
    · obtain rfl := Except.ok.inj h
      rfl
  | ok payload =>
    obtain ⟨date, hdate, hunread⟩ := hunsigned payload hpayload
    unfold license_verdict verify_license_file at h
    cases hfeatures : elements (getJson payload "features") with
    | error e =>
      obtain ⟨message, rfl⟩ := elements_error hfeatures
      simp [hpayload, hfeatures, bind, Except.bind] at h
    | ok features =>
      simp only [hpayload, hfeatures, hdate, check_expiry, hunread, bind, Except.bind] at h
      obtain rfl := Except.ok.inj h
      rfl

/-- When a document is read. -/
theorem read_doc_eq_ok_iff :
    read_doc loads content = .ok raw ↔ ∃ text, read_text content = .ok text ∧
    ((∃ e, loads (String.ofList (strip text.toList)) = .JSONDecodeError e ∧ raw = .error e) ∨
      ∃ doc, loads (String.ofList (strip text.toList)) = .value doc ∧ raw = .ok doc) := by
  unfold read_doc
  rw [bind_eq_ok]
  refine exists_congr fun text => and_congr_right fun _ => ?_
  dsimp only
  cases loads (String.ofList (strip text.toList)) with
  | value doc => simp [eq_comm]
  | JSONDecodeError e => simp [eq_comm]
  | ValueError message => simp
  | RecursionError message => simp

/-- What keeps a document from being read is no `LicenseError`. -/
theorem content_verdict_returns {status : LicenseStatus}
    (h : content_verdict loads site content now = .ok status) :
    ∃ raw, read_doc loads content = .ok raw ∧ license_verdict site raw now = .ok status := by
  cases hdoc : read_doc loads content with
  | ok raw => exact ⟨raw, rfl, content_verdict_of_doc hdoc ▸ h⟩
  | error e =>
    exfalso
    have hverify : verify_license_content loads site content now = .error e := by
      unfold verify_license_content
      rw [hdoc]
      rfl
    unfold content_verdict at h
    rw [hverify] at h
    unfold read_doc read_text at hdoc
    cases htext : String.fromUTF8? content with
    | none =>
      rw [htext] at hdoc
      obtain rfl := Except.error.inj hdoc
      simp at h
    | some text =>
      rw [htext] at hdoc
      dsimp only [bind, Except.bind] at hdoc
      split at hdoc
      · cases hdoc
      · cases hdoc
      · obtain rfl := Except.error.inj hdoc
        cases h
      · obtain rfl := Except.error.inj hdoc
        simp at h

/-- Every bad file is blocked only where it can be read. -/
theorem readable_of_blocks (hbypass : site.bypass = false)
    (h : BlocksBadFile loads site content now) :
    ReadableFile loads site content := by
  have hreads : ReadsFile {} "" true := nofun
  obtain ⟨status, hstatus, -⟩ := h {} "" true hreads
  rw [load_license_content_of_reads hbypass hreads] at hstatus
  obtain ⟨raw, hraw, hverdict⟩ := content_verdict_returns hstatus
  obtain ⟨text, htext, hdoc⟩ := read_doc_eq_ok_iff.mp hraw
  refine ⟨text, htext, ?_⟩
  obtain ⟨e, he, rfl⟩ | ⟨v, hv, rfl⟩ := hdoc
  · exact Or.inl ⟨e, he⟩
  · obtain ⟨message, hmessage⟩ | ⟨doc, hdoc, hfeatures⟩ :=
      license_verdict_returns_iff.mp ⟨status, hverdict⟩
    · cases hmessage
    · obtain rfl := Except.ok.inj hdoc
      exact Or.inr ⟨doc, hv, fun payload sig_b64 hpayload hsig hverified =>
        hfeatures payload (read_payload_eq_ok_iff.mpr
          ⟨doc, sig_b64, rfl, hpayload, hsig, hverified⟩)⟩

/-- A file is read without a crash, and a bad one blocks, exactly if it is text, and no JSON or an
object in which the features of a signed payload can be listed. -/
theorem bad_file_blocks_iff (hbypass : site.bypass = false) :
    BlocksBadFile loads site content now ↔ ReadableFile loads site content := by
  constructor
  · exact readable_of_blocks hbypass
  · rintro ⟨text, htext, hdoc⟩ p path force_reload hreads
    rw [load_license_content_of_reads hbypass hreads]
    obtain ⟨e, he⟩ | ⟨doc, hdoc, hfeatures⟩ := hdoc
    · have hraw : read_doc loads content = .ok (.error e) :=
        read_doc_eq_ok_iff.mpr ⟨text, htext, Or.inl ⟨e, he, rfl⟩⟩
      rw [content_verdict_of_doc hraw]
      exact ⟨_, rfl, fun _ => rfl⟩
    · have hraw : read_doc loads content = .ok (.ok (.obj doc)) :=
        read_doc_eq_ok_iff.mpr ⟨text, htext, Or.inr ⟨.obj doc, hdoc, rfl⟩⟩
      have hlisted : ∀ payload, read_payload site (.ok (.obj doc)) = .ok payload →
          Listable (getJson payload "features") := by
        intro payload hpayload
        obtain ⟨doc', sig_b64, hsame, hfields⟩ := read_payload_eq_ok_iff.mp hpayload
        cases hsame
        exact hfeatures payload sig_b64 hfields.1 hfields.2.1 hfields.2.2
      rw [content_verdict_of_doc hraw]
      obtain ⟨status, hstatus⟩ := license_verdict_returns_iff.mpr (Or.inr ⟨doc, rfl, hlisted⟩)
      refine ⟨status, hstatus, fun hunsigned => blocked_of_unsigned hstatus
        fun payload hpayload => ?_⟩
      obtain ⟨doc', sig_b64, hsame, hpayload', hsig, hverified⟩ :=
        read_payload_eq_ok_iff.mp hpayload
      cases hsame
      by_contra hdates
      refine hunsigned ⟨text, doc, payload, sig_b64, htext, hdoc, hpayload', hsig, hverified,
        fun date hdate => ?_⟩
      exact Option.ne_none_iff_exists'.mp fun hnone => hdates ⟨date, hdate, hnone⟩

end

/-- A machine where no signature holds. -/
def unsigned_site : Site where
  verify_signature _ _ := .error "签名验证失败（payload 被篡改或公钥不匹配）"
  fromisoformat _ := none
  py := .short

/-- `json.loads` for an empty list, an empty object and nothing else. -/
def empty_loads (raw : String) : Loads :=
  if raw = "[]" then .value (.arr [])
  else if raw = "{}" then .value (.obj [])
  else .JSONDecodeError "Expecting value: line 1 column 1 (char 0)"

/-- The file `{}` blocks. -/
theorem empty_object_blocks : BlocksBadFile empty_loads unsigned_site "{}".toUTF8 0 := by
  have hraw : String.ofList (strip "{}".toList) = "{}" := by decide +kernel
  have hloads : empty_loads "{}" = .value (.obj []) := by simp [empty_loads]
  refine (bad_file_blocks_iff rfl).mpr ⟨"{}", by decide +kernel, Or.inr ⟨[], hraw ▸ hloads, ?_⟩⟩
  intro payload sig_b64 hpayload
  cases hpayload

/-- A list, and a byte that is no text, make the call raise. -/
theorem list_file_raises : ¬ BlocksBadFile empty_loads unsigned_site "[]".toUTF8 0 ∧
    ¬ BlocksBadFile empty_loads unsigned_site ⟨#[0xFF]⟩ 0 := by
  constructor
  · intro h
    obtain ⟨text, htext, hdoc⟩ := readable_of_blocks rfl h
    have hlist : read_text "[]".toUTF8 = .ok "[]" := by decide +kernel
    obtain rfl := Except.ok.inj (hlist.symm.trans htext)
    have hraw : String.ofList (strip "[]".toList) = "[]" := by decide +kernel
    have hloads : empty_loads "[]" = .value (.arr []) := by simp [empty_loads]
    rw [hraw, hloads] at hdoc
    obtain ⟨e, he⟩ | ⟨doc, hdoc, -⟩ := hdoc
    · cases he
    · cases hdoc
  · intro h
    obtain ⟨text, htext, -⟩ := readable_of_blocks rfl h
    have hbyte : read_text ⟨#[0xFF]⟩ =
        .error (.other "UnicodeDecodeError" "'utf-8' codec can't decode bytes") := by
      decide +kernel
    rw [hbyte] at htext
    cases htext

end taurus.editions
