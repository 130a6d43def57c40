import Taurus.Editions.License
import Taurus.Lib.Memo

namespace taurus.editions

open taurus.lib taurus.lib.Prog taurus.lib.memo taurus.python taurus.engine taurus.engine.views

/-- The periods in the life of a license. -/
inductive Period where
  | running
  | grace
  | ended
  deriving DecidableEq

/-- The period at some time. Days are counted in whole, so the grace period ends with
its 31st day. -/
def period (expires_dt now : Time) : Period :=
  if now ≤ expires_dt then .running
  else if now < expires_dt + 31 * 86400000000 then .grace
  else .ended

/-- The date on which the state of a license depends: that of a file which is valid
on this machine. -/
def expiry_of (site : Site) (raw : Except String Json) : Option Time :=
  match read_payload site raw with
  | .error _ => none
  | .ok payload =>
    match elements (getJson payload "features"), getJson payload "expires_at" with
    | .ok _, .str date => if fingerprint_ok site payload then site.fromisoformat date else none
    | _, _ => none

/-- What a license decides: its state, the tier and the quotas. -/
def summary (verdict : Except Exn LicenseStatus) :
    Except Exn (LicenseState × TierName × Dict String Json) :=
  verdict.map fun status => (status.state, status.tier, status.quota)

/-- What a valid license of a tier decides in a period. -/
def summary_in (tier : TierName) (override : Json) :
    Period → LicenseState × TierName × Dict String Json
  | .running => (.licensed, tier, _resolve_quota tier override)
  | .grace => (.grace, tier, _resolve_quota tier override)
  | .ended => (.blocked, .community, QuotaDefaults.COMMUNITY)

/-- The answer of a quota check for what a license decides. -/
def quota_answer (site : Site) (verdict : Except Exn (LicenseState × TierName × Dict String Json))
    (field : String) (current : Int) (human_name : String) : Except Exn Unit := do
  let (_, tier, quota) ← verdict
  match getJson quota field with
  | .null => .ok ()
  | limit =>
    if ← reaches current limit then
      .error (.other "PermissionDenied" (s!"当前服务等级（{tier.name}）{human_name} 配额已满（上限 " ++
        s!"{site.py.str limit}），请删除部分后再操作，或升级服务等级。"))
    else .ok ()

/-- A process after a sequence of calls of `load_license`. -/
def after (site : Site) (calls : List (Read Time)) : Process :=
  calls.foldl (fun p c => (load_license site c.now c.fresh p).2) {}

/-- The last evaluation before a call lies in the same period of the license. -/
def SamePeriod (site : Site) (raw : Except String Json) (before : List (Read Time))
    (call : Read Time) : Prop :=
  ∀ expires_dt, expiry_of site raw = some expires_dt →
    period expires_dt (evaluated (last_evaluation before) call) = period expires_dt call.now

section

variable {site : Site} {path : String} {raw : Except String Json} {now now' : Time}

/-- Whole days are rounded down. -/
theorem whole_days_iff (a b : Int) :
    (a - b) / 86400000000 ≤ 30 ↔ a < b + 31 * 86400000000 := by omega

/-- The grace period ends after its last whole day. -/
theorem days_le_grace_iff {expires_dt : Time} :
    days (now - expires_dt) ≤ LICENSE_GRACE_DAYS ↔ now < expires_dt + 31 * 86400000000 :=
  whole_days_iff now expires_dt

/-- The answer of the check, period by period. -/
theorem check_expiry_date_eq (expires_raw : String) (expires_dt now : Time) :
    match period expires_dt now with
    | .running => ∃ warning, check_expiry_date expires_raw expires_dt now = .holds .licensed none warning
    | .grace =>
      ∃ left warning, check_expiry_date expires_raw expires_dt now = .holds .grace left warning
    | .ended => ∃ message, check_expiry_date expires_raw expires_dt now = .ended message := by
  unfold period check_expiry_date
  by_cases hrunning : now ≤ expires_dt
  · rw [if_pos hrunning, if_neg (not_lt.mpr hrunning)]
    exact ⟨_, rfl⟩
  · rw [if_neg hrunning, if_pos (not_le.mp hrunning)]
    by_cases hgrace : now < expires_dt + 31 * 86400000000
    · rw [if_pos hgrace]
      simp only [days_le_grace_iff.mpr hgrace, if_true]
      exact ⟨_, _, rfl⟩
    · rw [if_neg hgrace]
      simp only [mt days_le_grace_iff.mp hgrace, if_false]
      exact ⟨_, rfl⟩

/-- An expiry that is not accepted is an error of the licence. -/
theorem check_expiry_error {expires_raw : Json} {e : Exn}
    (h : check_expiry site expires_raw now = .error e) :
    ∃ message, e = LicenseError message := by
  unfold check_expiry at h
  cases expires_raw with
  | str date =>
    simp only at h
    cases hdate : site.fromisoformat date with
    | none =>
      rw [hdate] at h
      cases h
      exact ⟨_, rfl⟩
    | some expires_dt =>
      rw [hdate] at h
      cases h
  | _ => cases h

/-- The expiry date is the one of the payload. -/
theorem expiry_of_payload {payload : Dict String Json} {features : List Json}
    (hpayload : read_payload site raw = .ok payload)
    (hfeatures : elements (getJson payload "features") = .ok features) :
    expiry_of site raw = match getJson payload "expires_at" with
      | .str date => if fingerprint_ok site payload then site.fromisoformat date else none
      | _ => none := by
  unfold expiry_of
  rw [hpayload]
  simp only [hfeatures]
  cases getJson payload "expires_at" <;> rfl

/-- The verdict on a signed payload once the date of expiry has been looked at. -/
theorem verify_payload {payload : Dict String Json} {features : List Json}
    (hpayload : read_payload site raw = .ok payload)
    (hfeatures : elements (getJson payload "features") = .ok features) (now : Time) :
    summary (license_verdict site raw now) =
      match check_expiry site (getJson payload "expires_at") now with
      | .error _ => .ok (.blocked, .community, QuotaDefaults.COMMUNITY)
      | .ok (.ended _) => .ok (.blocked, .community, QuotaDefaults.COMMUNITY)
      | .ok (.holds state _ _) =>
        if fingerprint_ok site payload then
          .ok (state, _safe_tier payload,
            _resolve_quota (_safe_tier payload) (getJson payload "quota"))
        else .ok (.blocked, .community, QuotaDefaults.COMMUNITY) := by
  unfold license_verdict verify_license_file
  simp only [hpayload, hfeatures, bind, Except.bind]
  cases hexpiry : check_expiry site (getJson payload "expires_at") now with
  | error e =>
    obtain ⟨message, rfl⟩ := check_expiry_error hexpiry
    rfl
  | ok expiry =>
    cases expiry with
    | ended message => rfl
    | holds state left warning =>
      simp only
      split_ifs <;> rfl

/-- What a file decides is the same at all times, or it follows the periods of the license. -/
theorem summary_verdict (site : Site) (raw : Except String Json) :
    (expiry_of site raw = none ∧ ∃ v, ∀ now, summary (license_verdict site raw now) = v) ∨
      ∃ expires_dt tier override, expiry_of site raw = some expires_dt ∧
        ∀ now, summary (license_verdict site raw now) =
          .ok (summary_in tier override (period expires_dt now)) := by
  cases hpayload : read_payload site raw with
  | error e =>
    refine .inl ⟨by rw [expiry_of, hpayload], ?_⟩
    unfold license_verdict verify_license_file
    simp only [hpayload, bind, Except.bind]
    exact ⟨_, fun _ => rfl⟩
  | ok payload =>
    cases hfeatures : elements (getJson payload "features") with
    | error e =>
      refine .inl ⟨by simp only [expiry_of, hpayload, hfeatures], ?_⟩
      unfold license_verdict verify_license_file
      simp only [hpayload, hfeatures, bind, Except.bind]
      exact ⟨_, fun _ => rfl⟩
    | ok features =>
      simp only [verify_payload hpayload hfeatures, expiry_of_payload hpayload hfeatures]
      cases getJson payload "expires_at" with
      | str date =>
        cases hdate : site.fromisoformat date with
        | none =>
          refine .inl ⟨by simp [hdate], .ok (.blocked, .community, QuotaDefaults.COMMUNITY), fun now => ?_⟩
          simp only [check_expiry, hdate]
        | some expires_dt =>
          have hcheck : ∀ now, check_expiry site (.str date) now =
              .ok (check_expiry_date date expires_dt now) := by
            intro now
            simp only [check_expiry, hdate]
          simp only [hcheck, hdate]
          by_cases hfp : fingerprint_ok site payload = true
          · refine .inr ⟨expires_dt, _safe_tier payload, getJson payload "quota", if_pos hfp,
              fun now => ?_⟩
            simp only [hfp, if_true]
            have hperiod := check_expiry_date_eq date expires_dt now
            cases hnow : period expires_dt now with
            | running =>
              rw [hnow] at hperiod
              obtain ⟨warning, hholds⟩ := hperiod
              rw [hholds]
              rfl
            | grace =>
              rw [hnow] at hperiod
              obtain ⟨left, warning, hholds⟩ := hperiod
              rw [hholds]
              rfl
            | ended =>
              rw [hnow] at hperiod
              obtain ⟨message, hover⟩ := hperiod
              rw [hover]
              rfl
          · refine .inl ⟨if_neg hfp, .ok (.blocked, .community, QuotaDefaults.COMMUNITY),
              fun now => ?_⟩
            simp only [hfp, Bool.false_eq_true, if_false]
            cases check_expiry_date date expires_dt now <;> rfl
      | _ => exact .inl ⟨rfl, _, fun _ => rfl⟩

/-- What raises anything but a `LicenseError` does so at all times. -/
theorem verdict_error {e : Exn} (h : license_verdict site raw now = .error e) :
    license_verdict site raw now' = .error e := by
  unfold license_verdict verify_license_file at h ⊢
  cases hpayload : read_payload site raw with
  | error e' => simpa [hpayload, bind, Except.bind] using h
  | ok payload =>
    cases hfeatures : elements (getJson payload "features") with
    | error e' => simpa [hpayload, hfeatures, bind, Except.bind] using h
    | ok features =>
      exfalso
      simp only [hpayload, hfeatures, bind, Except.bind] at h
      cases hexpiry : check_expiry site (getJson payload "expires_at") now with
      | error e' =>
        obtain ⟨message, rfl⟩ := check_expiry_error hexpiry
        rw [hexpiry] at h
        cases h
      | ok expiry =>
        rw [hexpiry] at h
        cases expiry with
        | ended message => cases h
        | holds state left warning =>
          simp only at h
          split_ifs at h

/-- Two times give one summary exactly if they fall in one period. -/
theorem summary_eq_iff :
    summary (license_verdict site raw now) = summary (license_verdict site raw now') ↔
    ∀ expires_dt, expiry_of site raw = some expires_dt →
      period expires_dt now = period expires_dt now' := by
  obtain ⟨hnone, v, hv⟩ | ⟨expires_dt, tier, override, hsome, hv⟩ := summary_verdict site raw
  · rw [hv, hv, hnone]
    exact iff_of_true rfl nofun
  · rw [hv, hv, hsome]
    simp only [Except.ok.injEq, Option.some.injEq, forall_eq']
    refine ⟨fun h => ?_, fun h => by rw [h]⟩
    revert h
    cases period expires_dt now <;> cases period expires_dt now' <;> simp [summary_in]

/-- A process remembers what the memo holds; an exception leaves nothing behind. -/
def Remembers (site : Site) (raw : Except String Json) (path : String) (p : Process) :
    Option (Except Exn LicenseStatus) → Prop
  | none => p._cache = none
  | some (.ok status) => p._cache = some status ∧ p._cache_path = some path ∧
      ∃ now, license_verdict site raw now = .ok status
  | some (.error e) => p._cache = none ∧ ∀ now, license_verdict site raw now = .error e

/-- The calls of a process that finds a license file. -/
theorem load_license_file (hbypass : site.bypass = false)
    (hfile : site.license_file = some (path, raw)) (now : Time) (force_reload : Bool)
    (p : Process) :
    load_license site now force_reload p =
      match (if force_reload = false ∧ p._cache_path = some path then p._cache else none) with
      | some status => (.ok status, p)
      | none => match license_verdict site raw now with
        | .ok status => (.ok status, { _cache := some status, _cache_path := some path })
        | .error e => (.error e, p) := by
  unfold load_license
  rw [hbypass, hfile]
  simp only [Bool.false_eq_true, if_false, bind, andThen, getState, pure]
  cases (if force_reload = false ∧ p._cache_path = some path then p._cache else none) with
  | some status => rfl
  | none => cases license_verdict site raw now <;> rfl

/-- A call that does not find its answer in the cache evaluates the file. -/
theorem load_license_evaluates (hbypass : site.bypass = false)
    (hfile : site.license_file = some (path, raw)) {p : Process} {force_reload : Bool}
    (hlookup : (if force_reload = false ∧ p._cache_path = some path then p._cache else none) = none)
    (hcache : p._cache = none ∨ ∃ now status, license_verdict site raw now = .ok status)
    (now : Time) :
    (load_license site now force_reload p).1 = license_verdict site raw now ∧
      Remembers site raw path (load_license site now force_reload p).2
        (some (license_verdict site raw now)) := by
  rw [load_license_file hbypass hfile, hlookup]
  cases hverdict : license_verdict site raw now with
  | ok status => exact ⟨rfl, rfl, rfl, now, hverdict⟩
  | error e =>
    refine ⟨rfl, ?_, fun _ => verdict_error hverdict⟩
    obtain hcache | ⟨now', status, hok⟩ := hcache
    · exact hcache
    · rw [verdict_error hverdict] at hok
      cases hok

/-- `load_license` answers like a memo of the verdict. -/
theorem load_license_serve (hbypass : site.bypass = false)
    (hfile : site.license_file = some (path, raw)) {p : Process}
    {memo : Option (Except Exn LicenseStatus)} (hp : Remembers site raw path p memo)
    (c : Read Time) :
    (load_license site c.now c.fresh p).1 = (serve (license_verdict site raw) memo c).1 ∧
      Remembers site raw path (load_license site c.now c.fresh p).2
        (serve (license_verdict site raw) memo c).2 := by
  obtain ⟨now, fresh⟩ := c
  cases memo with
  | none =>
    have hcache : p._cache = none := hp
    exact load_license_evaluates hbypass hfile (by rw [hcache, ite_self]) (.inl hcache) now
  | some remembered =>
    cases remembered with
    | error e =>
      have hlookup : (if fresh = false ∧ p._cache_path = some path then p._cache
        else none) = none := by
        rw [hp.1, ite_self]
      have hevaluates := load_license_evaluates hbypass hfile hlookup (.inl hp.1) now
      cases fresh with
      | true => exact hevaluates
      | false =>
        rw [hp.2 now] at hevaluates
        exact hevaluates
    | ok status =>
      obtain ⟨hcache, hpath, now', hok⟩ := hp
      cases fresh with
      | true =>
        exact load_license_evaluates hbypass hfile (if_neg (by simp)) (.inr ⟨now', status, hok⟩) now
      | false =>
        rw [load_license_file hbypass hfile, if_pos ⟨rfl, hpath⟩, hcache]
        exact ⟨rfl, hcache, hpath, now', hok⟩

/-- The process keeps what it remembers through the calls. -/
theorem remembers_after (hbypass : site.bypass = false)
    (hfile : site.license_file = some (path, raw)) (calls : List (Read Time)) :
    Remembers site raw path (after site calls) (serve_all (license_verdict site raw) calls) := by
  unfold after serve_all
  suffices h : ∀ (p : Process) memo, Remembers site raw path p memo →
      Remembers site raw path (calls.foldl (fun p c => (load_license site c.now c.fresh p).2) p)
        (calls.foldl (fun memo c => (serve (license_verdict site raw) memo c).2) memo)
        from h {} none rfl
  induction calls with
  | nil => exact fun _ _ hp => hp
  | cons c rest ih => exact fun p memo hp => ih _ _ (load_license_serve hbypass hfile hp c).2

/-- A call is answered by the verdict of the last evaluation. -/
theorem load_license_answer (hbypass : site.bypass = false)
    (hfile : site.license_file = some (path, raw)) (before : List (Read Time)) (c : Read Time) :
    (load_license site c.now c.fresh (after site before)).1 =
      license_verdict site raw (evaluated (last_evaluation before) c) := by
  rw [(load_license_serve hbypass hfile (remembers_after hbypass hfile before) c).1,
    serve_all_answer]

/-- The second access of the gate is answered like the first one. -/
theorem load_license_again {p p' : Process} {status : LicenseStatus}
    (h : load_license site now false p = (.ok status, p')) :
    load_license site now false p' = (.ok status, p') := by
  by_cases hbypass : site.bypass = true
  · unfold load_license at h ⊢
    rw [if_pos hbypass] at h ⊢
    obtain ⟨hstatus, -⟩ := Prod.mk.inj h
    exact Prod.ext hstatus rfl
  · have hbypass := Bool.eq_false_of_not_eq_true hbypass
    cases hfile : site.license_file with
    | none =>
      unfold load_license at h ⊢
      rw [hbypass, hfile] at h ⊢
      obtain ⟨hstatus, -⟩ := Prod.mk.inj h
      exact Prod.ext hstatus rfl
    | some file =>
      obtain ⟨path, raw⟩ := file
      rw [load_license_file hbypass hfile] at h ⊢
      cases hlookup : (if false = false ∧ p._cache_path = some path then p._cache else none) with
      | some found =>
        rw [hlookup] at h
        obtain ⟨hstatus, rfl⟩ := Prod.mk.inj h
        rw [hlookup]
        exact Prod.ext hstatus rfl
      | none =>
        rw [hlookup] at h
        cases hverdict : license_verdict site raw now with
        | error e =>
          rw [hverdict] at h
          cases (Prod.mk.inj h).1
        | ok found =>
          rw [hverdict] at h
          obtain ⟨hstatus, rfl⟩ := Prod.mk.inj h
          rw [if_pos ⟨rfl, rfl⟩]
          exact Prod.ext hstatus rfl

/-- A quota check compares with what `load_license` answers at that moment. -/
theorem check_quota_eq (site : Site) (now : Time) (field : String) (current : Int)
    (human_name : String) (p : Process) :
    (check_quota site now field current human_name p).1 =
      quota_answer site (summary (load_license site now false p).1) field current human_name := by
  unfold check_quota get_quota quota_answer
  simp only [bind, andThen, Except.bind]
  rcases hload : load_license site now false p with ⟨e | status, p'⟩
  · rfl
  · simp only [pure, ret, summary, Except.map]
    cases getJson status.quota field with
    | null => rfl
    | bool _ | int _ | float _ | str _ | arr _ | obj _ =>
      simp only
      cases reaches current _ with
      | error e => rfl
      | ok full =>
        cases full with
        | false => rfl
        | true => simp only [fromExcept, ret, andThen, if_true, load_license_again hload, raise]

end

/-- A call of `load_license` returns what the file decides at that time if and only if the last
evaluation lies in the same period of the license; then the quota checks follow as well. -/
theorem license_follows_clock_iff (site : Site) {path : String} {raw : Except String Json}
    (hbypass : site.bypass = false) (hfile : site.license_file = some (path, raw))
    (before : List (Read Time)) (now : Time) (force_reload : Bool) :
    (summary (load_license site now force_reload (after site before)).1 =
      summary (license_verdict site raw now) ↔
      SamePeriod site raw before ⟨now, force_reload⟩) ∧
    (SamePeriod site raw before ⟨now, false⟩ → ∀ field current human_name,
      (check_quota site now field current human_name (after site before)).1 =
        quota_answer site (summary (license_verdict site raw now)) field current human_name) := by
  constructor
  · rw [load_license_answer hbypass hfile before ⟨now, force_reload⟩]
    exact summary_eq_iff
  · intro hsame field current human_name
    rw [check_quota_eq, load_license_answer hbypass hfile before ⟨now, false⟩,
      summary_eq_iff.mpr hsame]

/-- A signed license of the first day, for 200 hosts. -/
def dayLicense : Except String Json :=
  .ok (.obj [("payload", .obj [("tier", .str "starter"), ("expires_at", .str "1970-01-02")]),
    ("signature_b64", .str "")])

/-- An installation that has it. -/
def licensedSite : Site where
  license_file := some ("/etc/taurus/license.lic", dayLicense)
  verify_signature := fun _ _ => .ok ()
  fromisoformat := fun _ => some 86400000000
  py := .short

/-- Two calls on the first day agree with the file. -/
theorem first_day_followed :
    summary (load_license licensedSite 3600000000 false (after licensedSite [⟨0, false⟩])).1 =
      summary (license_verdict licensedSite dayLicense 3600000000) :=
  ((license_follows_clock_iff licensedSite rfl rfl [⟨0, false⟩] 3600000000 false).1).mpr
    fun _ h => by
    obtain rfl := Option.some.inj h
    rfl

/-- A process that has loaded the license on the first day is still licensed on the fortieth, when
the file is long blocked, and a hundredth host passes the quota check. -/
theorem licensed_after_expiry :
    (summary (load_license licensedSite 3456000000000 false (after licensedSite [⟨0, false⟩])).1).map (·.1) =
        .ok .licensed ∧
      (summary (license_verdict licensedSite dayLicense 3456000000000)).map (·.1) = .ok .blocked ∧
      (check_quota licensedSite 3456000000000 "max_hosts" 99 "托管主机"
        (after licensedSite [⟨0, false⟩])).1 = .ok () ∧
      ∃ message, quota_answer licensedSite
        (summary (license_verdict licensedSite dayLicense 3456000000000))
        "max_hosts" 99 "托管主机" = .error (.other "PermissionDenied" message) :=
  ⟨rfl, rfl, rfl, _, rfl⟩

end taurus.editions
