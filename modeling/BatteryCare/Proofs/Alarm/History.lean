import BatteryCare.Proofs.Alarm.Memory

/-!
# Alerts follow the history of calls

An alarm hears of power, charger and level by calls that come in any order. What it answers is
fixed by the calls so far and the alerts raised so far, without the flags and the instant that it
keeps: `Due` says of a history when an alert is raised. The alarm agrees with it on every call
(`followsHistory_run`), because its memory stands for the history after every call
(`remembers_run`).

The alarm sees the low 32 bits of the clock. It measures time rightly as long as the speaker is not
on for 2^32 ms without a break, wherever the clock starts and whenever it wraps.
-/

namespace BatteryCare

/-! ## Histories -/

/-- A call to an alarm. Instants are those of a clock (ms) that never wraps. -/
inductive AlarmCall where
  /-- The power state. -/
  | power (power : PowerState) (now : Nat)
  /-- The charger status. -/
  | charger (status : ChargerStatus)
  /-- The battery level (%). -/
  | level (percent : UInt8) (now : Nat)
  deriving DecidableEq, Repr

namespace AlarmCall

/-- When the call was made, if it says so. -/
def time? : AlarmCall → Option Nat
  | power _ now | level _ now => some now
  | charger _ => none

def power? : AlarmCall → Option (PowerState × Nat)
  | power p now => some (p, now)
  | charger _ | level _ _ => none

def charger? : AlarmCall → Option ChargerStatus
  | charger status => some status
  | power _ _ | level _ _ => none

/-- The power states told. -/
def powers (calls : List AlarmCall) : List (PowerState × Nat) := calls.filterMap power?

/-- The last charger status told; not connected before there is any. -/
def lastCharger (calls : List AlarmCall) : ChargerStatus :=
  (calls.filterMap charger?).getLast?.getD .notConnected

/-- The last of the calls starts a charge cycle. -/
def StartsCycle (calls : List AlarmCall) : Prop :=
  ∃ before, calls = before ++ [charger .active] ∧ lastCharger before ≠ .active

/-- The calls were made in the order of their instants, and each level within 2^32 ms of the
switching on before it. -/
structure Clocked (calls : List AlarmCall) : Prop where
  forward : (calls.filterMap time?).Pairwise (· ≤ ·)
  short : ∀ past percent now rest, calls = past ++ level percent now :: rest →
    ∀ since, OnSince (powers past) since → now < since + UInt32.size

end AlarmCall

/-- A call that was answered. -/
structure AlarmNote where
  call : AlarmCall
  /-- The alerts raised, in order. -/
  alerts : List AlertLevel
  deriving DecidableEq, Repr

/-- The alert has not been raised since the beginning or since the start of a charge cycle. -/
def Unraised (level : AlertLevel) (notes : List AlarmNote) : Prop :=
  ∃ before after, notes = before ++ after
    ∧ (before = [] ∨ AlarmCall.StartsCycle (before.map AlarmNote.call))
    ∧ ∀ n ∈ after, level ∉ n.alerts

/-- When a history asks for an alert on a level of `percent` at `now`. -/
structure Due (config : AlarmConfig) (past : List AlarmNote) (level : AlertLevel)
    (percent : UInt8) (now : Nat) : Prop where
  /-- The speaker is on, and was switched on at least the grace time ago. -/
  on : ∃ since, OnSince (AlarmCall.powers (past.map AlarmNote.call)) since
    ∧ since + config.grace.toNat ≤ now
  idle : AlarmCall.lastCharger (past.map AlarmNote.call) ≠ .active
  low : percent ≤ config.threshold level
  fresh : Unraised level past

namespace Alarm

/-! ## Runs -/

/-- The alarm after a call, and the alerts raised. -/
def answer (a : Alarm) : AlarmCall → Alarm × List AlertLevel
  | .power power now => (a.setPower power (.ofNat now), [])
  | .charger status => (a.setCharger status, [])
  | .level percent now => a.check percent (.ofNat now)

def run (a : Alarm) : List AlarmCall → List AlarmNote
  | [] => []
  | call :: rest => ⟨call, (a.answer call).2⟩ :: (a.answer call).1.run rest

def after (a : Alarm) (calls : List AlarmCall) : Alarm :=
  calls.foldl (fun a call => (a.answer call).1) a

theorem after_concat (a : Alarm) (calls : List AlarmCall) (call : AlarmCall) :
    a.after (calls ++ [call]) = ((a.after calls).answer call).1 :=
  List.foldl_append

theorem run_concat (a : Alarm) (calls : List AlarmCall) (call : AlarmCall) :
    a.run (calls ++ [call]) = a.run calls ++ [⟨call, ((a.after calls).answer call).2⟩] := by
  induction calls generalizing a with
  | nil => rfl
  | cons c calls ih =>
    rw [List.cons_append, run, ih, run, List.cons_append]
    rfl

theorem run_split {a : Alarm} {calls : List AlarmCall} {past rest : List AlarmNote}
    {n : AlarmNote} (h : a.run calls = past ++ n :: rest) :
    ∃ xs ys, calls = xs ++ n.call :: ys ∧ past = a.run xs
      ∧ n.alerts = ((a.after xs).answer n.call).2 := by
  induction calls generalizing a past with
  | nil => exact absurd h (by simp [run])
  | cons call calls ih =>
    cases past with
    | nil =>
      obtain ⟨rfl, -⟩ := List.cons.inj h
      exact ⟨[], calls, rfl, rfl, rfl⟩
    | cons p past =>
      obtain ⟨rfl, htail⟩ := List.cons.inj h
      obtain ⟨xs, ys, hcalls, hpast, halerts⟩ := ih htail
      exact ⟨call :: xs, ys, by rw [hcalls]; rfl, by rw [run, ← hpast], halerts⟩

theorem map_call_run (a : Alarm) (calls : List AlarmCall) :
    (a.run calls).map AlarmNote.call = calls := by
  induction calls generalizing a with
  | nil => rfl
  | cons call calls ih => rw [run, List.map_cons, ih]

end Alarm

/-! ## What one more call changes -/

namespace AlarmCall

@[simp] theorem powers_concat (calls : List AlarmCall) (call : AlarmCall) :
    powers (calls ++ [call]) = powers calls ++ call.power?.toList := by
  rw [powers, List.filterMap_append, powers]
  cases call <;> rfl

theorem lastCharger_concat (calls : List AlarmCall) (call : AlarmCall) :
    lastCharger (calls ++ [call]) = call.charger?.getD (lastCharger calls) := by
  rw [lastCharger, List.filterMap_append]
  cases call with
  | charger status => simp [charger?]
  | power p now => simp [charger?, lastCharger]
  | level percent now => simp [charger?, lastCharger]

theorem startsCycle_concat_iff {calls : List AlarmCall} {call : AlarmCall} :
    StartsCycle (calls ++ [call]) ↔ call = charger .active ∧ lastCharger calls ≠ .active := by
  constructor
  · rintro ⟨before, hsplit, hbefore⟩
    obtain ⟨rfl, hcall⟩ := List.append_inj' hsplit rfl
    exact ⟨(List.cons.inj hcall).1, hbefore⟩
  · rintro ⟨rfl, hbefore⟩
    exact ⟨calls, rfl, hbefore⟩

end AlarmCall

theorem unraised_nil (level : AlertLevel) : Unraised level [] :=
  ⟨[], [], rfl, Or.inl rfl, by simp⟩

/-- **An alert is armed by the start of a cycle, and until then not once it is raised.** -/
theorem unraised_concat_iff {level : AlertLevel} {notes : List AlarmNote} {n : AlarmNote} :
    Unraised level (notes ++ [n])
      ↔ AlarmCall.StartsCycle ((notes ++ [n]).map AlarmNote.call)
        ∨ Unraised level notes ∧ level ∉ n.alerts := by
  constructor
  · rintro ⟨before, after, hsplit, hbefore, hafter⟩
    -- the last call either starts the cycle or comes after its start
    induction after using List.reverseRecOn with
    | nil =>
      rw [List.append_nil] at hsplit
      subst hsplit
      rcases hbefore with hnil | hstart
      · exact absurd hnil (by simp)
      · exact Or.inl hstart
    | append_singleton after m _ =>
      rw [← List.append_assoc] at hsplit
      obtain ⟨rfl, hlast⟩ := List.append_inj' hsplit rfl
      obtain rfl : n = m := (List.cons.inj hlast).1
      exact Or.inr ⟨⟨before, after, rfl, hbefore, fun k hk => hafter k (by simp [hk])⟩,
        hafter n (by simp)⟩
  · rintro (hstart | ⟨⟨before, after, rfl, hbefore, hafter⟩, hn⟩)
    · exact ⟨notes ++ [n], [], by simp, Or.inr hstart, by simp⟩
    · refine ⟨before, after ++ [n], by simp, hbefore, ?_⟩
      intro k hk
      rcases List.mem_append.mp hk with hk | hk
      · exact hafter k hk
      · rw [List.mem_singleton.mp hk]
        exact hn

/-! ## The memory stands for the history -/

/-- What the memory of an alarm says of its history. -/
structure Remembers (config : AlarmConfig) (a : Alarm) (notes : List AlarmNote) : Prop where
  config_eq : a.config = config
  power : a.KnowsPower UInt32.ofNat (AlarmCall.powers (notes.map AlarmNote.call))
  charger : a.charger = AlarmCall.lastCharger (notes.map AlarmNote.call)
  flags : ∀ level, a.raised level = false ↔ Unraised level notes
  armed : a.charger = .active → ∀ level, a.raised level = false
  nested : config.criticalThreshold ≤ config.lowThreshold →
    a.raised .critical = true → a.raised .low = true

namespace Remembers

variable {config : AlarmConfig} {a : Alarm} {notes : List AlarmNote}

theorem setPower (h : Remembers config a notes) (power : PowerState) (now : Nat) :
    Remembers config (a.setPower power (.ofNat now)) (notes ++ [⟨.power power now, []⟩]) where
  config_eq := h.config_eq
  power := by
    rw [List.map_append, List.map_singleton, AlarmCall.powers_concat]
    exact h.power.setPower power now
  charger := by
    rw [List.map_append, List.map_singleton, AlarmCall.lastCharger_concat]
    exact h.charger
  flags := by
    intro level
    rw [unraised_concat_iff, List.map_append, List.map_singleton,
      AlarmCall.startsCycle_concat_iff, ← h.flags level]
    cases level <;> simp [Alarm.raised, Alarm.setPower]
  armed := h.armed
  nested := h.nested

theorem setCharger (h : Remembers config a notes) (status : ChargerStatus) :
    Remembers config (a.setCharger status) (notes ++ [⟨.charger status, []⟩]) where
  config_eq := h.config_eq
  power := by
    have hsame : (a.setCharger status).KnowsPower UInt32.ofNat
        (AlarmCall.powers (notes.map AlarmNote.call)) := h.power.congr rfl rfl
    rw [List.map_append, List.map_singleton, AlarmCall.powers_concat]
    simpa [AlarmCall.power?] using hsame
  charger := by
    rw [List.map_append, List.map_singleton, AlarmCall.lastCharger_concat]
    rfl
  flags := by
    intro level
    rw [unraised_concat_iff, List.map_append, List.map_singleton,
      AlarmCall.startsCycle_concat_iff, ← h.flags level, ← h.charger, Alarm.raised_setCharger]
    by_cases hstart : status = .active ∧ a.charger ≠ .active
    · simp [hstart]
    · simp [hstart]
  armed := by
    intro hactive level
    rw [Alarm.raised_setCharger]
    split
    · rfl
    · rename_i hstart
      refine h.armed ?_ level
      by_contra hidle
      exact hstart ⟨hactive, hidle⟩
  nested := by
    intro hle hcritical
    rw [Alarm.raised_setCharger] at hcritical ⊢
    split
    · rename_i hstart
      rw [if_pos hstart] at hcritical
      exact absurd hcritical (by simp)
    · rename_i hstart
      rw [if_neg hstart] at hcritical
      exact h.nested hle hcritical

theorem check (h : Remembers config a notes) (percent : UInt8) (now : Nat) :
    Remembers config (a.check percent (.ofNat now)).1
      (notes ++ [⟨.level percent now, (a.check percent (.ofNat now)).2⟩]) := by
  obtain ⟨hconfig, hpower, hat, hcharger⟩ := a.check_memory percent (.ofNat now)
  have hflag := fun level => a.raised_check level percent (.ofNat now)
  have hmem := fun level => a.mem_check_iff level percent (.ofNat now)
  generalize (a.check percent (.ofNat now)).1 = a' at hconfig hpower hat hcharger hflag ⊢
  generalize (a.check percent (.ofNat now)).2 = alerts at hflag hmem ⊢
  refine ⟨hconfig.trans h.config_eq, ?_, ?_, ?_, ?_, ?_⟩
  · rw [List.map_append, List.map_singleton, AlarmCall.powers_concat]
    simpa [AlarmCall.power?] using h.power.congr hpower hat
  · rw [List.map_append, List.map_singleton, AlarmCall.lastCharger_concat, hcharger]
    exact h.charger
  · intro level
    rw [unraised_concat_iff, List.map_append, List.map_singleton,
      AlarmCall.startsCycle_concat_iff, ← h.flags level, ← Bool.not_eq_true, hflag level]
    simp
  · intro hactive level
    rw [hcharger] at hactive
    rw [← Bool.not_eq_true, hflag level, hmem level]
    rintro (hraised | ⟨hwatch, -⟩)
    · exact absurd (h.armed hactive level) (by simp [hraised])
    · rw [Alarm.isWatching] at hwatch
      simp [hactive] at hwatch
  · -- a level at or below the critical threshold is at or below the low one
    intro hle hcritical
    rw [hflag .low, hmem .low]
    rcases (hflag .critical).mp hcritical with hraised | hnew
    · exact Or.inl (h.nested hle hraised)
    · obtain ⟨hwatch, hpercent, -⟩ := (hmem .critical).mp hnew
      rw [h.config_eq] at hpercent ⊢
      cases hlow : a.raised .low with
      | true => exact Or.inl rfl
      | false => exact Or.inr ⟨hwatch, UInt8.le_trans hpercent hle, rfl⟩

end Remembers

/-- **The memory of an alarm stands for its history.** -/
theorem remembers_run (config : AlarmConfig) (calls : List AlarmCall) :
    Remembers config (({ config } : Alarm).after calls) (({ config } : Alarm).run calls) := by
  induction calls using List.reverseRecOn with
  | nil =>
    refine ⟨rfl, Alarm.knowsPower_new config, rfl, ?_, fun _ level => ?_, fun _ h => ?_⟩
    · intro level
      exact iff_of_true (by cases level <;> rfl) (unraised_nil level)
    · cases level <;> rfl
    · exact absurd h (by simp [Alarm.raised, Alarm.after])
  | append_singleton calls call ih =>
    rw [Alarm.after_concat, Alarm.run_concat]
    cases call with
    | power power now => exact ih.setPower power now
    | charger status => exact ih.setCharger status
    | level percent now => exact ih.check percent now

/-! ## The clock -/

namespace AlarmCall

theorem time_mem_of_power_mem {calls : List AlarmCall} {p : PowerState} {since : Nat}
    (h : (p, since) ∈ powers calls) : since ∈ calls.filterMap time? := by
  obtain ⟨call, hcall, hpower⟩ := List.mem_filterMap.mp h
  refine List.mem_filterMap.mpr ⟨call, hcall, ?_⟩
  cases call with
  | power q now =>
    obtain ⟨-, rfl⟩ := Prod.mk.inj (Option.some.inj hpower)
    rfl
  | charger status => exact absurd hpower (by simp [power?])
  | level percent now => exact absurd hpower (by simp [power?])

/-- At a level the alarm measures the time since switching on rightly. -/
theorem Clocked.elapsed {calls past rest : List AlarmCall} {percent : UInt8} {now since : Nat}
    (h : Clocked calls) (hsplit : calls = past ++ level percent now :: rest)
    (hsince : OnSince (powers past) since) :
    since ≤ now ∧ (UInt32.ofNat now - UInt32.ofNat since).toNat = now - since := by
  have hforward := h.forward
  rw [hsplit, List.filterMap_append] at hforward
  have hle : since ≤ now :=
    (List.pairwise_append.mp hforward).2.2 since (time_mem_of_power_mem hsince.mem) now
      (by simp [time?])
  exact ⟨hle, toNat_ofNat_sub_ofNat hle (h.short past percent now rest hsplit since hsince)⟩

end AlarmCall

/-! ## Answers -/

/-- What holds of the answers of a new alarm and of its flags after them. -/
structure FollowsHistory (config : AlarmConfig) (notes : List AlarmNote) (final : Alarm) :
    Prop where
  /-- A level raises exactly the alerts that are due. -/
  raises : ∀ past percent now alerts rest, notes = past ++ ⟨.level percent now, alerts⟩ :: rest →
    ∀ level, level ∈ alerts ↔ Due config past level percent now
  /-- The low alert comes before the critical one, and none comes twice. -/
  ordered : ∀ n ∈ notes, n.alerts.Sublist [.low, .critical]
  /-- Power and charger raise nothing. -/
  quiet : ∀ n ∈ notes, n.alerts ≠ [] → ∃ percent now, n.call = .level percent now
  /-- Both alerts are armed while the battery charges. -/
  armed : AlarmCall.lastCharger (notes.map AlarmNote.call) = .active →
    ∀ level, final.raised level = false
  nested : config.criticalThreshold ≤ config.lowThreshold →
    final.raised .critical = true → final.raised .low = true

/-- What holds of every answer holds of the answers of a run. -/
theorem Alarm.forall_mem_run {a : Alarm} {calls : List AlarmCall} {P : AlarmNote → Prop}
    (h : ∀ (a : Alarm) (call : AlarmCall), P ⟨call, (a.answer call).2⟩) :
    ∀ n ∈ a.run calls, P n := by
  induction calls generalizing a with
  | nil => exact fun n hn => absurd hn (by simp [run])
  | cons call calls ih =>
    intro n hn
    rcases List.mem_cons.mp hn with rfl | hn
    · exact h a call
    · exact ih n hn

/--
**An alarm raises what the history of its calls asks for**, for every calibration and every series
of calls by a clock that goes forward, wherever it starts.
-/
theorem followsHistory_run (config : AlarmConfig) {calls : List AlarmCall}
    (h : AlarmCall.Clocked calls) :
    FollowsHistory config (({ config } : Alarm).run calls) (({ config } : Alarm).after calls) where
  raises := by
    intro past percent now alerts rest hsplit level
    obtain ⟨xs, ys, hcalls, rfl, halerts⟩ := Alarm.run_split hsplit
    have hr := remembers_run config xs
    rw [show alerts = _ from halerts]
    change level ∈ ((({ config } : Alarm).after xs).check percent (.ofNat now)).2 ↔ _
    have hmap := ({ config } : Alarm).map_call_run xs
    rw [Alarm.mem_check_iff, hr.power.isWatching_iff, hr.flags, hr.config_eq, hr.charger, hmap]
    -- the clock wraps, but while it is read forwards the difference is what has passed
    constructor
    · rintro ⟨⟨hidle, since, hsince, hgrace⟩, hlow, hfresh⟩
      obtain ⟨hle, helapsed⟩ := h.elapsed hcalls hsince
      rw [UInt32.le_iff_toNat_le, helapsed] at hgrace
      exact ⟨⟨since, by rw [hmap]; exact hsince, by omega⟩, by rw [hmap]; exact hidle, hlow, hfresh⟩
    · rintro ⟨⟨since, hsince, hgrace⟩, hidle, hlow, hfresh⟩
      rw [hmap] at hsince hidle
      obtain ⟨hle, helapsed⟩ := h.elapsed hcalls hsince
      refine ⟨⟨hidle, since, hsince, ?_⟩, hlow, hfresh⟩
      rw [UInt32.le_iff_toNat_le, helapsed]
      omega
  ordered := by
    refine Alarm.forall_mem_run fun a call => ?_
    cases call with
    | power power now => exact List.nil_sublist _
    | charger status => exact List.nil_sublist _
    | level percent now => exact a.check_sublist percent (.ofNat now)
  quiet := by
    refine Alarm.forall_mem_run fun a call halerts => ?_
    cases call with
    | power power now => exact absurd rfl halerts
    | charger status => exact absurd rfl halerts
    | level percent now => exact ⟨percent, now, rfl⟩
  armed := by
    have hr := remembers_run config calls
    rw [← hr.charger]
    exact hr.armed
  nested := (remembers_run config calls).nested

/-- A speaker that is switched on shortly before the clock wraps. -/
def callsOverWrap : List AlarmCall :=
  [.power .on (UInt32.size - 1000), .level 9 (UInt32.size + 3999),
    .power .on (UInt32.size + 3999), .level 9 (UInt32.size + 4000), .charger .active,
    .charger .inactive, .level 3 (UInt32.size + 5000)]

/-- The grace time is kept over the wrap, and a charge cycle arms both alerts again. -/
theorem followsHistory_over_wrap :
    AlarmCall.Clocked callsOverWrap
      ∧ FollowsHistory {} (({} : Alarm).run callsOverWrap) (({} : Alarm).after callsOverWrap)
      ∧ (({} : Alarm).run callsOverWrap).map AlarmNote.alerts
          = [[], [], [], [.low], [], [], [.low, .critical]] := by
  have hclocked : AlarmCall.Clocked callsOverWrap := by
    refine ⟨by decide, ?_⟩
    intro past percent now rest hsplit since hsince
    have hlate : ∀ call ∈ callsOverWrap, ∀ t, call.time? = some t →
        UInt32.size - 1000 ≤ t ∧ t ≤ UInt32.size + 5000 := by
      decide
    have hnow := hlate (.level percent now) (by rw [hsplit]; simp) now rfl
    obtain ⟨call, hcall, htime⟩ :=
      List.mem_filterMap.mp (AlarmCall.time_mem_of_power_mem hsince.mem)
    have hat := hlate call (by rw [hsplit]; simp [hcall]) since htime
    have hsize : UInt32.size = 4294967296 := rfl
    omega
  exact ⟨hclocked, followsHistory_run {} hclocked, by decide⟩

end BatteryCare
