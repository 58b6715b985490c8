import Emosa.Lib.Text
import Emosa.Lib.Dialogue
import Emosa.Lib.Except
import Emosa.Wire.ReportSource

/-!
# Emosa.Wire.ReportLaw

The law of a report source, over every sequence of its calls.

* `Read`: what a snapshot that is read back has of the one published, and of the readings.
* `Inv`: the source against the publications it accepted. The epoch grows with every gap, so a
  publication after one has a token of its own.
* `Law`: the law; `report_law`: it holds of every run.
-/

namespace Emosa.Reports

open Wire (Bytes)
open ReportSource List Option

variable {κ τ ο : Type}

/-! ## What is read back -/

/-- The topology that is shown once its deadline, or the telemetry's, is over. -/
def TopologyFacts.shown (topology : TopologyFacts τ) (topologyOver telemetryOver : Bool) :
    TopologyFacts τ :=
  { topology with
    inventoryComplete := topology.inventoryComplete && !topologyOver && !telemetryOver
    clients := if telemetryOver then withoutClients topology.clients else topology.clients }

def ending (topologyOver telemetryOver : Bool) : String :=
  (if topologyOver then expiredTopology else "") ++ (if telemetryOver then expiredTelemetry else "")

def topologyOver (r : Reads) (deadline : Option ℚ) : Bool := deadline.any (· ≤ r.topology)

def telemetryOver (r : Reads) (deadline : Option ℚ) : Bool := deadline.any (· ≤ r.telemetry)

/-- `snap` is what is read back of `published`. -/
structure Read (r : Reads) (published snap : ReportSnapshot κ τ ο) : Prop where
  lease : r.stamp < published.stamp.validUntil
  inForce : r.stamp < snap.stamp.validUntil
  token : snap.stamp.token = published.stamp.token ++
    ending (topologyOver r published.topologyValidUntil) (telemetryOver r published.telemetryValidUntil)
  capabilities : snap.capabilities = published.capabilities
  topology : snap.topology = published.topology.shown (topologyOver r published.topologyValidUntil)
    (telemetryOver r published.telemetryValidUntil)
  operatingRadios : snap.operatingRadios =
    if telemetryOver r published.telemetryValidUntil then [] else published.operatingRadios

theorem ReportStamp.new_ok {token : String} {observedAt validUntil : ℚ} {stamp : ReportStamp}
    (h : ReportStamp.new token observedAt validUntil = .ok stamp) :
    stamp = ⟨token, observedAt, validUntil⟩ := by
  unfold ReportStamp.new at h
  split at h
  · cases h
  split at h
  · cases h
  · exact (Except.ok.inj h).symm

theorem ReportStamp.map_new_ok {α : Type} {f : ReportStamp → α} {a : α} {token : String}
    {observedAt validUntil : ℚ}
    (h : (do let stamp ← ReportStamp.new token observedAt validUntil; pure (f stamp)) = .ok a) :
    a = f ⟨token, observedAt, validUntil⟩ := by
  obtain ⟨stamp, hstamp, ha⟩ := Except.bind_ok h
  obtain rfl := ReportStamp.new_ok hstamp
  exact (Except.ok.inj ha).symm

theorem ReportStamp.check_ok {stamp : ReportStamp} {now : ℚ} {u : Unit}
    (h : stamp.check stamp now = .ok u) : stamp.observedAt ≤ now ∧ now < stamp.validUntil := by
  unfold ReportStamp.check at h
  split at h
  · rename_i hc
    exact hc.2.1
  · cases h

/-- One deadline of the two: the token is marked once it is over, and before it ends the stamp. -/
theorem topologyAt_ok {r : Reads} {snap snap' : ReportSnapshot κ τ ο}
    (h : topologyAt r.topology snap = .ok snap') :
    snap'.stamp.token = snap.stamp.token ++
        (if topologyOver r snap.topologyValidUntil then expiredTopology else "") ∧
      snap'.capabilities = snap.capabilities ∧
      snap'.topology = snap.topology.shown (topologyOver r snap.topologyValidUntil) false ∧
      snap'.operatingRadios = snap.operatingRadios ∧
      snap'.telemetryValidUntil = snap.telemetryValidUntil ∧
      (r.stamp < snap.stamp.validUntil → r.stamp < snap'.stamp.validUntil) := by
  unfold topologyAt at h
  cases hd : snap.topologyValidUntil with
  | none =>
    rw [hd] at h
    obtain rfl := Except.ok.inj h
    simp [topologyOver, TopologyFacts.shown]
  | some deadline =>
    rw [hd] at h
    simp only at h
    split at h
    · rename_i hover
      obtain rfl := ReportStamp.map_new_ok h
      simp [topologyOver, hover, TopologyFacts.shown]
    · rename_i hover
      obtain rfl := ReportStamp.map_new_ok h
      have hbefore : r.stamp < deadline := lt_of_le_of_lt r.stamp_le (not_le.mp hover)
      simp [topologyOver, hover, TopologyFacts.shown, hbefore]

theorem telemetryAt_ok {r : Reads} {snap snap' : ReportSnapshot κ τ ο}
    (h : telemetryAt r.telemetry snap = .ok snap') :
    snap'.stamp.token = snap.stamp.token ++
        (if telemetryOver r snap.telemetryValidUntil then expiredTelemetry else "") ∧
      snap'.capabilities = snap.capabilities ∧
      snap'.topology = snap.topology.shown false (telemetryOver r snap.telemetryValidUntil) ∧
      snap'.operatingRadios =
        (if telemetryOver r snap.telemetryValidUntil then [] else snap.operatingRadios) ∧
      (r.stamp < snap.stamp.validUntil → r.stamp < snap'.stamp.validUntil) := by
  unfold telemetryAt at h
  cases hd : snap.telemetryValidUntil with
  | none =>
    rw [hd] at h
    obtain rfl := Except.ok.inj h
    simp [telemetryOver, TopologyFacts.shown]
  | some deadline =>
    rw [hd] at h
    simp only at h
    split at h
    · rename_i hover
      obtain rfl := ReportStamp.map_new_ok h
      simp [telemetryOver, hover, TopologyFacts.shown]
    · rename_i hover
      obtain rfl := ReportStamp.map_new_ok h
      have hbefore : r.stamp < deadline :=
        lt_of_le_of_lt (r.stamp_le.trans r.topology_le) (not_le.mp hover)
      simp [telemetryOver, hover, TopologyFacts.shown, hbefore]

variable {s : ReportSource κ τ ο} {r : Reads}

/-- What `current` does: it reads the published snapshot back, or it shows nothing. -/
theorem current_cases (s : ReportSource κ τ ο) (r : Reads) :
    (∃ published read, s.snapshot = some published ∧ s.current r = (read, s) ∧
      ∀ snap, read = .ok (some snap) → Read r published snap) ∨
    ((s.current r).1 = .ok none ∧
      ((s.current r).2 = s.invalidate ∨ s.snapshot = none ∧ (s.current r).2 = s)) := by
  unfold current
  split
  · exact .inr ⟨rfl, .inl rfl⟩
  cases hsnap : s.snapshot with
  | none => exact .inr ⟨rfl, .inr ⟨rfl, rfl⟩⟩
  | some published =>
    simp only
    cases hcheck : published.stamp.check published.stamp r.stamp with
    | error e => exact .inr ⟨rfl, .inl rfl⟩
    | ok u =>
      refine .inl ⟨published, _, rfl, rfl, fun snap hread => ?_⟩
      have hlease := (ReportStamp.check_ok hcheck).2
      obtain ⟨mid, hmid, hrest⟩ := Except.bind_ok hread
      obtain ⟨last, hlast, hsome⟩ := Except.bind_ok hrest
      obtain rfl : last = snap := some.inj (Except.ok.inj hsome)
      obtain ⟨htok, hcap, htop, hops, htel, hin⟩ := topologyAt_ok hmid
      obtain ⟨htok', hcap', htop', hops', hin'⟩ := telemetryAt_ok hlast
      rw [htel] at htok' htop' hops'
      refine ⟨hlease, hin' (hin hlease), ?_, hcap'.trans hcap, ?_, ?_⟩
      · rw [htok', htok, String.append_assoc, ending]
      · rw [htop', htop]
        cases topologyOver r published.topologyValidUntil <;>
          cases telemetryOver r published.telemetryValidUntil <;> simp [TopologyFacts.shown]
      · rw [hops', hops]

/-! ## Tokens -/

theorem slash_not_mem_toDigits (n : Nat) : '/' ∉ Nat.toDigits 10 n := by
  intro hmem
  have hdigit := Nat.isDigit_of_mem_toDigits (by decide) (by decide) hmem
  revert hdigit
  decide

theorem toDigits_injective {m n : Nat} (h : Nat.toDigits 10 m = Nat.toDigits 10 n) : m = n := by
  rw [← Nat.ofDigitChars_ten_toDigits (n := m), h, Nat.ofDigitChars_ten_toDigits]

theorem token_toList (instanceId : String) (epoch : Nat) (revision : Revision) (ending : String) :
    (token instanceId epoch revision ++ ending).toList = instanceId.toList ++ '/' ::
      (Nat.toDigits 10 epoch ++ '/' :: (Nat.toDigits 10 (ofLex revision).1 ++ '/' ::
        (Nat.toDigits 10 (ofLex revision).2 ++ ending.toList))) := by
  have hself : ∀ t : String, toString t = t := fun _ => rfl
  simp [token, hself]

theorem ending_slash (a b : Bool) : (ending a b).toList = [] ∨ ∃ t, (ending a b).toList = '/' :: t := by
  cases a <;> cases b
  · exact .inl (by decide)
  all_goals exact .inr ⟨_, by rfl⟩

theorem ending_injective {a b a' b' : Bool} (h : (ending a b).toList = (ending a' b').toList) :
    a = a' ∧ b = b' := by
  revert a b a' b'
  decide

theorem token_injective {instanceId : String} {epoch epoch' : Nat} {revision revision' : Revision}
    {a b a' b' : Bool} (h : token instanceId epoch revision ++ ending a b =
      token instanceId epoch' revision' ++ ending a' b') :
    epoch = epoch' ∧ revision = revision' ∧ a = a' ∧ b = b' := by
  have hlist := congrArg String.toList h
  rw [token_toList, token_toList] at hlist
  have hslash : ∀ t : List Char, '/' :: t = [] ∨ ∃ t', '/' :: t = '/' :: t' := fun t => .inr ⟨t, rfl⟩
  have hrest := cons_inj_right _ |>.mp (append_cancel_left hlist)
  obtain ⟨hepoch, hrest⟩ := Text.split_at (slash_not_mem_toDigits _) (slash_not_mem_toDigits _)
    (hslash _) (hslash _) hrest
  obtain ⟨hgen, hrest⟩ := Text.split_at (slash_not_mem_toDigits _) (slash_not_mem_toDigits _)
    (hslash _) (hslash _) (cons_inj_right _ |>.mp hrest)
  obtain ⟨hnum, hend⟩ := Text.split_at (slash_not_mem_toDigits _) (slash_not_mem_toDigits _)
    (ending_slash _ _) (ending_slash _ _) (cons_inj_right _ |>.mp hrest)
  refine ⟨toDigits_injective hepoch, ?_, ending_injective hend⟩
  exact ofLex.injective (Prod.ext (toDigits_injective hgen) (toDigits_injective hnum))

/-! ## Outcomes -/

def ReportSource.Outcome.shown : Outcome κ τ ο → Option (ReportSnapshot κ τ ο)
  | .accepted _ back | .read back => back.toOption.join
  | .refused _ | .done => none

def ReportSource.Outcome.published : Outcome κ τ ο → Option (Publication κ τ ο)
  | .accepted p _ => some p
  | .refused _ | .read _ | .done => none

section

variable {shown : ReportSnapshot κ τ ο}

theorem ok_of_shown {read : Except EmosaError (Option (ReportSnapshot κ τ ο))} (h : read.toOption.join = some shown) :
    read = .ok (some shown) := by
  cases read <;> simp_all [Except.toOption]

/-- The snapshot a publication puts in force in an epoch. -/
structure Publishes (instanceId : String) (h : Nat × Publication κ τ ο)
    (snap : ReportSnapshot κ τ ο) : Prop where
  token : snap.stamp.token = token instanceId h.1 h.2.revision
  validUntil : snap.stamp.validUntil = h.2.observedAt + h.2.lifetime
  capabilities : snap.capabilities = h.2.facts.capabilities
  topology : snap.topology = h.2.facts.topology
  operatingRadios : snap.operatingRadios = h.2.facts.operatingRadios
  telemetryValidUntil : snap.telemetryValidUntil = h.2.facts.telemetryValidUntil
  topologyValidUntil : snap.topologyValidUntil = h.2.facts.topologyValidUntil

/-- The source after a call that accepts nothing: it stays, or the snapshot is gone and the epoch
ended. -/
def Leaves (s s' : ReportSource κ τ ο) : Prop :=
  s'.instanceId = s.instanceId ∧ s'.revision = s.revision ∧ s'.lastFacts = s.lastFacts ∧
    s'.lastObserved = s.lastObserved ∧
    (s'.snapshot = s.snapshot ∧ s'.epoch = s.epoch ∨ s'.snapshot = none ∧ s.epoch < s'.epoch)

theorem leaves_refl : Leaves s s :=
  ⟨rfl, rfl, rfl, rfl, .inl ⟨rfl, rfl⟩⟩

theorem leaves_invalidate : Leaves s s.invalidate :=
  ⟨rfl, rfl, rfl, rfl, .inr ⟨rfl, Nat.lt_succ_self _⟩⟩

variable (s) in
theorem leaves_lapsed (now : ℚ) : Leaves s (s.lapsed now) := by
  unfold lapsed
  split
  · exact leaves_invalidate
  · exact leaves_refl

theorem Leaves.epoch_le (h : Leaves s s') : s.epoch ≤ s'.epoch := by
  obtain ⟨-, -, -, -, ⟨-, he⟩ | ⟨-, he⟩⟩ := h <;> omega

theorem Leaves.snapshot (h : Leaves s s') :
    s'.snapshot = none ∨ s'.snapshot = s.snapshot := by
  obtain ⟨-, -, -, -, ⟨hsame, -⟩ | ⟨hnone, -⟩⟩ := h
  · exact .inr hsame
  · exact .inl hnone

theorem stamped_ok {p : Publication κ τ ο} {now : ℚ} {stamp : ReportStamp}
    (h : s.stamped p now = .ok stamp) :
    stamp = ⟨token s.instanceId s.epoch p.revision, p.observedAt, p.observedAt + p.lifetime⟩ := by
  obtain ⟨stamp', hnew, hrest⟩ := Except.bind_ok h
  obtain ⟨u, -, hret⟩ := Except.bind_ok hrest
  obtain rfl := Except.ok.inj hret
  exact ReportStamp.new_ok hnew

theorem current_leaves : Leaves s (s.current r).2 := by
  rcases current_cases s r with ⟨_, _, -, hcur, -⟩ | ⟨-, hinv | ⟨-, hsame⟩⟩
  · rw [hcur]
    exact leaves_refl
  · rw [hinv]
    exact leaves_invalidate
  · rw [hsame]
    exact leaves_refl

theorem current_reads (h : (s.current r).1 = .ok (some shown)) :
    ∃ snap, s.snapshot = some snap ∧ Read r snap shown := by
  rcases current_cases s r with ⟨snap, read, hsnap, hcur, hread⟩ | ⟨hnone, -⟩
  · rw [hcur] at h
    exact ⟨snap, hsnap, hread shown h⟩
  · rw [hnone] at h
    cases h

theorem current_lapses {snap : ReportSnapshot κ τ ο} (hsnap : s.snapshot = some snap)
    (hlapsed : snap.stamp.validUntil ≤ r.stamp) : (s.current r).2.snapshot = none := by
  unfold current
  split
  · rfl
  rw [hsnap]
  simp only
  cases hcheck : snap.stamp.check snap.stamp r.stamp with
  | error e => rfl
  | ok u => exact absurd (ReportStamp.check_ok hcheck).2 (not_lt.mpr hlapsed)

/-! ## The publications accepted -/

/-- A publication that follows another. -/
def Follows (h h' : Nat × Publication κ τ ο) : Prop :=
  h.1 ≤ h'.1 ∧ h.2.revision ≤ h'.2.revision ∧ h.2.observedAt ≤ h'.2.observedAt ∧
    (h.2.revision = h'.2.revision → h.2.facts = h'.2.facts)

theorem Follows.trans {a b c : Nat × Publication κ τ ο} (hab : Follows a b) (hbc : Follows b c) :
    Follows a c := by
  refine ⟨hab.1.trans hbc.1, hab.2.1.trans hbc.2.1, hab.2.2.1.trans hbc.2.2.1, fun heq => ?_⟩
  -- Between two equal revisions there is no other.
  have hmid : a.2.revision = b.2.revision := le_antisymm hab.2.1 (heq ▸ hbc.2.1)
  exact (hab.2.2.2 hmid).trans (hbc.2.2.2 (hmid.symm.trans heq))

/-- The source against the publications accepted so far. -/
structure Inv (s : ReportSource κ τ ο) (hs : List (Nat × Publication κ τ ο)) : Prop where
  behind : ∀ h ∈ hs, h.1 ≤ s.epoch
  closed : s.snapshot = none → ∀ h ∈ hs, h.1 < s.epoch
  ordered : hs.Pairwise Follows
  revision : s.revision = hs.getLast?.map (·.2.revision)
  lastFacts : s.lastFacts = hs.getLast?.map (·.2.facts)
  lastObserved : s.lastObserved = hs.getLast?.map (·.2.observedAt)
  inForce : ∀ snap, s.snapshot = some snap →
    ∃ p, hs.getLast? = some (s.epoch, p) ∧ Publishes s.instanceId (s.epoch, p) snap

variable {s' : ReportSource κ τ ο} {hs : List (Nat × Publication κ τ ο)}

theorem Inv.leaves (hi : Inv s hs) (h : Leaves s s') : Inv s' hs := by
  obtain ⟨hid, hrev, hfacts, hobs, ⟨hsnap, hepoch⟩ | ⟨hsnap, hepoch⟩⟩ := h
  · exact
      { behind := hepoch ▸ hi.behind
        closed := fun h => hepoch ▸ hi.closed (hsnap ▸ h)
        ordered := hi.ordered
        revision := hrev.trans hi.revision
        lastFacts := hfacts.trans hi.lastFacts
        lastObserved := hobs.trans hi.lastObserved
        inForce := fun snap h => by
          rw [hid, hepoch]
          exact hi.inForce snap (hsnap ▸ h) }
  · exact
      { behind := fun h hh => (hi.behind h hh).trans hepoch.le
        closed := fun _ h hh => (hi.behind h hh).trans_lt hepoch
        ordered := hi.ordered
        revision := hrev.trans hi.revision
        lastFacts := hfacts.trans hi.lastFacts
        lastObserved := hobs.trans hi.lastObserved
        inForce := fun snap h => by rw [hsnap] at h; cases h }

/-! ## What is shown -/

/-- The reading of the clock a snapshot is shown at. -/
def checkedAt : ReportSource.Call κ τ ο → Option ℚ
  | .publish _ r | .current r => some r.stamp
  | .invalidate | .rebind _ => none

/-- The first reading of the clock in a call. -/
def startedAt : ReportSource.Call κ τ ο → Option ℚ
  | .publish _ r => some r.lapse
  | .current r => some r.stamp
  | .invalidate | .rebind _ => none

/-- `shown` is what is read, at `now`, of a publication. -/
def Shows (instanceId : String) (h : Nat × Publication κ τ ο) (now : ℚ)
    (shown : ReportSnapshot κ τ ο) : Prop :=
  ∃ r snap, r.stamp = now ∧ Publishes instanceId h snap ∧ Read r snap shown

theorem Shows.same {instanceId : String} {h h' : Nat × Publication κ τ ο} {now now' : ℚ}
    {a b : ReportSnapshot κ τ ο} (ha : Shows instanceId h now a) (hb : Shows instanceId h' now' b)
    (heq : a.stamp.token = b.stamp.token) :
    h.1 = h'.1 ∧ h.2.revision = h'.2.revision ∧ (h.2.facts = h'.2.facts →
      a.capabilities = b.capabilities ∧ a.topology = b.topology ∧
        a.operatingRadios = b.operatingRadios) := by
  obtain ⟨r, snap, -, hp, hr⟩ := ha
  obtain ⟨r', snap', -, hp', hr'⟩ := hb
  rw [hr.token, hr'.token, hp.token, hp'.token] at heq
  obtain ⟨hepoch, hrev, htop, htel⟩ := token_injective heq
  refine ⟨hepoch, hrev, fun hfacts => ⟨?_, ?_, ?_⟩⟩
  · rw [hr.capabilities, hr'.capabilities, hp.capabilities, hp'.capabilities, hfacts]
  · rw [hr.topology, hr'.topology, htop, htel, hp.topology, hp'.topology, hfacts]
  · rw [hr.operatingRadios, hr'.operatingRadios, htel, hp.operatingRadios, hp'.operatingRadios, hfacts]

theorem Shows.dated {instanceId : String} {h : Nat × Publication κ τ ο} {now : ℚ} (hs : Shows instanceId h now shown) :
    now < shown.stamp.validUntil ∧ now < h.2.observedAt + h.2.lifetime ∧
      (∀ deadline ∈ h.2.facts.telemetryValidUntil, deadline ≤ now →
        (∀ b ∈ shown.topology.clients, b.clients = []) ∧ shown.operatingRadios = [] ∧
          shown.topology.inventoryComplete = false) ∧
      ∀ deadline ∈ h.2.facts.topologyValidUntil, deadline ≤ now →
        shown.topology.inventoryComplete = false := by
  obtain ⟨r, snap, rfl, hp, hr⟩ := hs
  refine ⟨hr.inForce, hp.validUntil ▸ hr.lease, fun deadline hd hle => ?_, fun deadline hd hle => ?_⟩
  · have hover : telemetryOver r snap.telemetryValidUntil = true := by
      rw [hp.telemetryValidUntil, mem_def.mp hd]
      exact decide_eq_true (hle.trans (r.stamp_le.trans r.topology_le))
    rw [hr.topology, hr.operatingRadios, hover]
    refine ⟨fun b hb => ?_, rfl, by simp [TopologyFacts.shown]⟩
    obtain ⟨b', -, rfl⟩ := mem_map.mp hb
    rfl
  · have hover : topologyOver r snap.topologyValidUntil = true := by
      rw [hp.topologyValidUntil, mem_def.mp hd]
      exact decide_eq_true (hle.trans r.stamp_le)
    rw [hr.topology, hover]
    simp [TopologyFacts.shown]

end

/-! ## One call -/

section Calls

variable [DecidableEq κ] [DecidableEq τ] [DecidableEq ο]

/-- What a call does: it accepts a publication, or it leaves the source. -/
inductive Does (s : ReportSource κ τ ο) :
    ReportSource.Call κ τ ο → Outcome κ τ ο → ReportSource κ τ ο → Prop
  | accepts {p r u stamp read} {s' : ReportSource κ τ ο} {snap : ReportSnapshot κ τ ο}
      (checked : s.checked p = .ok u)
      (inForce : ((s.lapsed r.lapse).accept p stamp).snapshot = some snap)
      (publishes : Publishes s.instanceId ((s.lapsed r.lapse).epoch, p) snap)
      (leaves : Leaves ((s.lapsed r.lapse).accept p stamp) s')
      (reads : ∀ shown, read = .ok (some shown) → Read r snap shown) :
      Does s (.publish (some p) r) (.accepted p read) s'
  | refuses {args r e s'} (leaves : Leaves s s') (gone : s'.snapshot = none) :
      Does s (.publish args r) (.refused e) s'
  | reads {r read s'} (leaves : Leaves s s')
      (lapses : ∀ snap, s.snapshot = some snap → snap.stamp.validUntil ≤ r.stamp →
        s'.snapshot = none)
      (reads : ∀ shown, read = .ok (some shown) → ∃ snap, s.snapshot = some snap ∧ Read r snap shown) :
      Does s (.current r) (.read read) s'
  | leaves {c s'} (untimed : startedAt c = none) (leaves : Leaves s s') : Does s c .done s'

theorem publish_does (s : ReportSource κ τ ο) (args : Option (Publication κ τ ο)) (r : Reads) :
    Does s (.publish args r) (s.publish args r).1 (s.publish args r).2 := by
  cases args with
  | none => exact .refuses leaves_invalidate rfl
  | some p =>
    unfold publish
    simp only
    cases hchecked : s.checked p with
    | error e => exact .refuses leaves_invalidate rfl
    | ok u =>
      obtain ⟨hid, hrev, hfacts, hobs, hlap⟩ := leaves_lapsed s r.lapse
      cases hstamp : (s.lapsed r.lapse).stamped p r.fresh with
      | error e =>
        refine .refuses ⟨hid, hrev, hfacts, hobs, .inr ⟨rfl, ?_⟩⟩ rfl
        have hle : s.epoch ≤ (s.lapsed r.lapse).epoch := by
          rcases hlap with ⟨-, he⟩ | ⟨-, he⟩ <;> omega
        exact Nat.lt_succ_of_le hle
      | ok stamp =>
        have hstamp := stamped_ok hstamp
        refine .accepts hchecked rfl ⟨?_, ?_, rfl, rfl, rfl, rfl, rfl⟩ current_leaves ?_
        · rw [hstamp, hid]
        · rw [hstamp]
        · intro shown hshown
          obtain ⟨snap, hsnap, hread⟩ := current_reads hshown
          exact some.inj hsnap ▸ hread

theorem call_does (s : ReportSource κ τ ο) (c : ReportSource.Call κ τ ο) :
    ∃ o s', s.call c = (o, s') ∧ Does s c o s' := by
  refine ⟨_, _, rfl, ?_⟩
  cases c with
  | publish args r => exact publish_does s args r
  | current r =>
    exact .reads current_leaves (fun _ => current_lapses) (fun _ => current_reads)
  | invalidate => exact .leaves rfl leaves_invalidate
  | rebind identity => exact .leaves rfl ⟨rfl, rfl, rfl, rfl, .inl ⟨rfl, rfl⟩⟩

/-- The epoch a publication is accepted in. -/
def epochAt (s : ReportSource κ τ ο) : ReportSource.Call κ τ ο → Nat
  | .publish _ r => (s.lapsed r.lapse).epoch
  | .current _ | .invalidate | .rebind _ => s.epoch

def added (s : ReportSource κ τ ο) (c : ReportSource.Call κ τ ο) : List (Nat × Publication κ τ ο) :=
  ((s.call c).1.published.map fun p => (epochAt s c, p)).toList

def history : ReportSource κ τ ο → List (ReportSource.Call κ τ ο) → List (Nat × Publication κ τ ο)
  | _, [] => []
  | s, c :: cs => added s c ++ history (s.call c).2 cs

section

variable {p : Publication κ τ ο}

theorem checked_ok {u : Unit} (h : s.checked p = .ok u) :
    s.inOrder p = true ∧ (s.revision = some p.revision → s.lastFacts = some p.facts) := by
  by_cases horder : s.inOrder p = true
  · simp only [checked, if_pos horder] at h
    obtain ⟨_, -, hfacts⟩ := Except.bind_ok h
    refine ⟨horder, fun heq => ?_⟩
    by_contra hne
    rw [if_pos ⟨heq, hne⟩] at hfacts
    cases hfacts
  · simp only [checked, if_neg horder] at h
    cases h

theorem Inv.follows (hi : Inv s hs) {u : Unit} (hchecked : s.checked p = .ok u)
    {epoch : Nat} (hepoch : ∀ h ∈ hs, h.1 ≤ epoch) : ∀ h ∈ hs, Follows h (epoch, p) := by
  intro h hh
  obtain ⟨last, hlast⟩ : ∃ last, hs.getLast? = some last := by
    cases hl : hs.getLast? with
    | none => rw [getLast?_eq_none_iff.mp hl] at hh; cases hh
    | some last => exact ⟨last, rfl⟩
  -- The source compares with the last one, which follows the others.
  have hto : Follows last (epoch, p) := by
    obtain ⟨horder, hfacts⟩ := checked_ok hchecked
    simp only [inOrder, hi.lastObserved, hi.revision, hlast, map_some, all_some,
      Bool.and_eq_true, decide_eq_true_eq] at horder
    refine ⟨hepoch last (mem_of_getLast? hlast), horder.1.2, horder.1.1.2, fun heq => ?_⟩
    rw [hi.revision, hi.lastFacts, hlast] at hfacts
    exact some.inj (hfacts (congrArg some heq))
  obtain ⟨front, rfl⟩ := getLast?_eq_some_iff.mp hlast
  rcases mem_append.mp hh with hfront | hend
  · have hpair := (pairwise_append.mp hi.ordered).2.2 h hfront last (mem_singleton_self _)
    exact hpair.trans hto
  · exact mem_singleton.mp hend ▸ hto

theorem Inv.call (hi : Inv s hs) (c : ReportSource.Call κ τ ο) : Inv (s.call c).2 (hs ++ added s c) := by
  obtain ⟨o, s', hcall, hdoes⟩ := call_does s c
  unfold added
  rw [hcall]
  cases hdoes with
  | @accepts p r u stamp read s' snap hchecked hin hpub hleaves hreads =>
    have hlap := hi.leaves (leaves_lapsed s r.lapse)
    refine Inv.leaves ?_ hleaves
    exact
      { behind := by
          intro h hh
          rcases mem_append.mp hh with hh | hh
          · exact hlap.behind h hh
          · rw [mem_singleton.mp hh]
            exact le_rfl
        closed := fun h => by rw [hin] at h; cases h
        ordered := by
          refine pairwise_append.mpr ⟨hi.ordered, pairwise_singleton _ _, ?_⟩
          intro h hh h' hh'
          rw [mem_singleton.mp hh']
          exact hi.follows hchecked hlap.behind h hh
        revision := by simp [accept, Outcome.published]
        lastFacts := by simp [accept, Outcome.published]
        lastObserved := by simp [accept, Outcome.published]
        inForce := by
          intro snap' h
          obtain rfl := some.inj (hin.symm.trans h)
          refine ⟨p, by simp [Outcome.published, epochAt, accept], ?_⟩
          have hid := (leaves_lapsed s r.lapse).1
          exact hid.symm ▸ hpub }
  | refuses hleaves _ | reads hleaves _ _ | leaves _ hleaves =>
    simpa [Outcome.published] using hi.leaves hleaves

variable {c : ReportSource.Call κ τ ο} {cs : List (ReportSource.Call κ τ ο)}
variable {shown : ReportSnapshot κ τ ο}

theorem call_instanceId : (s.call c).2.instanceId = s.instanceId := by
  obtain ⟨o, s', hcall, hdoes⟩ := call_does s c
  rw [hcall]
  cases hdoes with
  | accepts _ _ _ hleaves _ => exact hleaves.1.trans (leaves_lapsed s _).1
  | refuses hleaves _ | reads hleaves _ _ | leaves _ hleaves =>
    exact hleaves.1

theorem call_epoch_le :
    s.epoch ≤ (s.call c).2.epoch ∧ ∀ h ∈ added s c, s.epoch ≤ h.1 ∧ h.1 ≤ (s.call c).2.epoch := by
  obtain ⟨o, s', hcall, hdoes⟩ := call_does s c
  unfold added
  rw [hcall]
  cases hdoes with
  | @accepts p r u stamp read s' snap hchecked hin hpub hleaves hreads =>
    have hlap := (leaves_lapsed s r.lapse).epoch_le
    have hle : (s.lapsed r.lapse).epoch ≤ s'.epoch := hleaves.epoch_le
    refine ⟨hlap.trans hle, fun h hh => ?_⟩
    obtain rfl : h = ((s.lapsed r.lapse).epoch, p) := mem_singleton.mp hh
    exact ⟨hlap, hle⟩
  | refuses hleaves _ | reads hleaves _ _ | leaves _ hleaves =>
    exact ⟨hleaves.epoch_le, by simp [Outcome.published]⟩

theorem Inv.shows (hi : Inv s hs) (h : (s.call c).1.shown = some shown) :
    ∃ last now, (hs ++ added s c).getLast? = some last ∧ s.epoch ≤ last.1 ∧
      checkedAt c = some now ∧ Shows s.instanceId last now shown := by
  obtain ⟨o, s', hcall, hdoes⟩ := call_does s c
  unfold added
  rw [hcall] at h ⊢
  cases hdoes with
  | @accepts p r u stamp read s' snap hchecked hin hpub hleaves hreads =>
    exact ⟨_, r.stamp, by simp [Outcome.published, epochAt], (leaves_lapsed s r.lapse).epoch_le, rfl,
      r, snap, rfl, hpub, hreads shown (ok_of_shown h)⟩
  | refuses _ _ => cases h
  | @reads r read s' hleaves hlapses hreads =>
    obtain ⟨snap, hsnap, hof⟩ := hreads shown (ok_of_shown h)
    obtain ⟨p, hlast, hpub⟩ := hi.inForce snap hsnap
    exact ⟨_, r.stamp, by simpa [Outcome.published] using hlast, le_rfl, rfl, r, snap, rfl, hpub, hof⟩
  | leaves _ _ => cases h

/-! ## Runs -/

abbrev Entry (κ τ ο : Type) := Dialogue.Entry (ReportSource.Call κ τ ο) (Outcome κ τ ο)

def publications (log : List (Entry κ τ ο)) : List (Publication κ τ ο) :=
  log.filterMap (·.answer.published)

def log (s : ReportSource κ τ ο) (cs : List (ReportSource.Call κ τ ο)) : List (Entry κ τ ο) :=
  Dialogue.trace (fun s c => s.call c) s cs

def afterCalls (s : ReportSource κ τ ο) (cs : List (ReportSource.Call κ τ ο)) : ReportSource κ τ ο :=
  Dialogue.after (fun s c => s.call c) s cs

theorem publications_log : publications (log s cs) = (history s cs).map Prod.snd := by
  induction cs generalizing s with
  | nil => rfl
  | cons c cs ih =>
    have hrest := @ih (s.call c).2
    simp only [publications, log] at hrest
    simp only [publications, log, history, Dialogue.trace_cons, filterMap_cons, added, hrest]
    cases (s.call c).1.published <;> rfl

theorem Inv.after (hi : Inv s hs) (cs : List (ReportSource.Call κ τ ο)) :
    Inv (afterCalls s cs) (hs ++ history s cs) := by
  induction cs generalizing s hs with
  | nil => simpa [history, afterCalls] using hi
  | cons c cs ih => simpa [history, afterCalls] using ih (hi.call c)

theorem afterCalls_instanceId :
    (afterCalls s cs).instanceId = s.instanceId :=
  Dialogue.after_invariant
    (fun t c h => (call_instanceId (s := t) (c := c)).trans h) rfl cs

theorem Inv.shows_log (hi : Inv s hs) {e : Entry κ τ ο} (he : e ∈ log s cs)
    (h : e.answer.shown = some shown) :
    ∃ x ∈ hs ++ history s cs, ∃ now, s.epoch ≤ x.1 ∧ Shows s.instanceId x now shown := by
  induction cs generalizing s hs with
  | nil => cases he
  | cons c cs ih =>
    rcases mem_cons.mp he with rfl | he
    · obtain ⟨last, now, hlast, hle, -, hshows⟩ := hi.shows h
      refine ⟨last, ?_, now, hle, hshows⟩
      rw [history, ← append_assoc]
      exact mem_append_left _ (mem_of_getLast? hlast)
    · obtain ⟨x, hx, now, hle, hshows⟩ := ih (hi.call c) he
      rw [call_instanceId] at hshows
      refine ⟨x, ?_, now, call_epoch_le.1.trans hle, hshows⟩
      rwa [history, ← append_assoc]

/-! ## Gaps -/

/-- Nothing is in force when the call reads the clock. -/
def Quiet (s : ReportSource κ τ ο) (c : ReportSource.Call κ τ ο) : Prop :=
  ∀ snap, s.snapshot = some snap → ∃ now, startedAt c = some now ∧ snap.stamp.validUntil ≤ now

/-- A call in a gap shows something only if it accepts a publication, and in an epoch of its own. -/
theorem Inv.quiet (hi : Inv s hs) (hq : Quiet s c) :
    (∀ shown, (s.call c).1.shown = some shown → ∃ p, (s.call c).1.published = some p) ∧
      (∀ h ∈ hs, h.1 < (s.call c).2.epoch) ∧ ∀ h ∈ hs, ∀ h' ∈ added s c, h.1 < h'.1 := by
  obtain ⟨o, s', hcall, hdoes⟩ := call_does s c
  unfold added
  rw [hcall]
  -- A call that ends with nothing in force has ended the epoch.
  have hgone : Leaves s s' → s'.snapshot = none → ∀ h ∈ hs, h.1 < s'.epoch := fun hleaves hnone =>
    (hi.leaves hleaves).closed hnone
  cases hdoes with
  | @accepts p r u stamp read s' snap hchecked hin hpub hleaves hreads =>
    have hnone : (s.lapsed r.lapse).snapshot = none := by
      unfold lapsed
      cases hsnap : s.snapshot with
      | none => simpa using hsnap
      | some snap =>
        obtain ⟨now, hnow, hle⟩ := hq snap hsnap
        obtain rfl := some.inj hnow
        rw [if_pos (by simpa using hle)]
        rfl
    have hlt := (hi.leaves (leaves_lapsed s r.lapse)).closed hnone
    refine ⟨fun _ _ => ⟨p, rfl⟩, fun h hh => (hlt h hh).trans_le hleaves.epoch_le, ?_⟩
    intro h hh h' hh'
    rw [mem_singleton.mp hh']
    exact hlt h hh
  | refuses hleaves hnone =>
    exact ⟨nofun, hgone hleaves hnone, by simp [Outcome.published]⟩
  | @reads r read s' hleaves hlapses hreads =>
    have hnone : s'.snapshot = none := by
      cases hsnap : s.snapshot with
      | none => exact hleaves.snapshot.elim id (·.trans hsnap)
      | some snap =>
        obtain ⟨now, hnow, hle⟩ := hq snap hsnap
        exact hlapses snap hsnap (some.inj hnow ▸ hle)
    refine ⟨fun shown hshown => ?_, hgone hleaves hnone, by simp [Outcome.published]⟩
    obtain ⟨snap, hsnap, hof⟩ := hreads shown (ok_of_shown hshown)
    obtain ⟨now, hnow, hle⟩ := hq snap hsnap
    exact absurd hof.lease (not_lt.mpr (some.inj hnow ▸ hle))
  | leaves huntimed hleaves =>
    refine ⟨nofun, ?_, by simp [Outcome.published]⟩
    refine hgone hleaves (hleaves.snapshot.elim id fun hsame => hsame.trans ?_)
    cases hsnap : s.snapshot with
    | none => rfl
    | some snap =>
      obtain ⟨now, hnow, -⟩ := hq snap hsnap
      rw [huntimed] at hnow
      cases hnow

end

/-- `e` was refused, or what it published has lapsed when `last` is called. -/
def Gap (e last : Entry κ τ ο) : Prop :=
  (∃ err, e.answer = .refused err) ∨
    ∃ p now, e.answer.published = some p ∧ startedAt last.call = some now ∧
      p.observedAt + p.lifetime ≤ now

structure Law (log : List (Entry κ τ ο)) : Prop where
  /-- Nothing is shown past its stamp, or past the deadlines it was published with. -/
  dated : ∀ pre e post, log = pre ++ e :: post → ∀ shown, e.answer.shown = some shown →
    ∃ p now, (publications (pre ++ [e])).getLast? = some p ∧ checkedAt e.call = some now ∧
      now < shown.stamp.validUntil ∧ now < p.observedAt + p.lifetime ∧
      (∀ deadline ∈ p.facts.telemetryValidUntil, deadline ≤ now →
        (∀ b ∈ shown.topology.clients, b.clients = []) ∧ shown.operatingRadios = [] ∧
          shown.topology.inventoryComplete = false) ∧
      ∀ deadline ∈ p.facts.topologyValidUntil, deadline ≤ now →
        shown.topology.inventoryComplete = false
  /-- Equal tokens stand for equal facts. -/
  tokens : ∀ e ∈ log, ∀ e' ∈ log, ∀ a b, e.answer.shown = some a → e'.answer.shown = some b →
    a.stamp.token = b.stamp.token →
      a.capabilities = b.capabilities ∧ a.topology = b.topology ∧
        a.operatingRadios = b.operatingRadios
  /-- Accepted publications do not go back. -/
  ordered : (publications log).Pairwise fun p q =>
    p.revision ≤ q.revision ∧ p.observedAt ≤ q.observedAt
  /-- After a gap nothing is shown until a publication is accepted, and from then on under tokens
  that were not shown before it. -/
  gaps : ∀ pre e mid last post, log = pre ++ e :: (mid ++ last :: post) → publications mid = [] →
    Gap e last →
      (∀ shown, last.answer.shown = some shown → ∃ p, last.answer.published = some p) ∧
      ∀ x ∈ last :: post, ∀ y ∈ pre ++ e :: mid, ∀ a b, x.answer.shown = some a →
        y.answer.shown = some b → a.stamp.token ≠ b.stamp.token

theorem history_append (ds : List (ReportSource.Call κ τ ο)) :
    history s (cs ++ ds) = history s cs ++ history (afterCalls s cs) ds := by
  induction cs generalizing s with
  | nil => rfl
  | cons c cs ih =>
    have hrest := @ih (s.call c).2
    simp only [cons_append, history, hrest, append_assoc]
    rfl

theorem log_append (ds : List (ReportSource.Call κ τ ο)) :
    log s (cs ++ ds) = log s cs ++ log (afterCalls s cs) ds :=
  Dialogue.trace_append _ s cs ds

theorem Inv.dated (hi : Inv s []) {pre post : List (Entry κ τ ο)} {e : Entry κ τ ο}
    (hlog : log s cs = pre ++ e :: post) (hshown : e.answer.shown = some shown) :
    ∃ h now, (publications (pre ++ [e])).getLast? = some h.2 ∧ checkedAt e.call = some now ∧
      Shows s.instanceId h now shown := by
  obtain ⟨before, c, rest, rfl, rfl, rfl, rfl⟩ := Dialogue.trace_split hlog
  have hafter := hi.after before
  obtain ⟨last, now, hlast, -, hnow, hshows⟩ := hafter.shows hshown
  refine ⟨last, now, ?_, hnow, afterCalls_instanceId (s := s) ▸ hshows⟩
  have hone : log s before ++ [⟨c, ((afterCalls s before).call c).1⟩] = log s (before ++ [c]) := by
    rw [log_append]
    rfl
  have hadded : history (afterCalls s before) [c] = added (afterCalls s before) c := by
    simp [history]
  change (publications (log s before ++ [⟨c, ((afterCalls s before).call c).1⟩])).getLast? = _
  rw [hone, publications_log, history_append, hadded, getLast?_map]
  simpa using congrArg (Option.map Prod.snd) hlast

theorem Inv.later (hi : Inv s hs) (hq : Quiet s c) {x : Entry κ τ ο} (hx : x ∈ log s (c :: cs))
    (hshown : x.answer.shown = some shown) :
    ∃ h now, (∀ h' ∈ hs, h'.1 < h.1) ∧ Shows s.instanceId h now shown := by
  obtain ⟨hfirst, hend, hnew⟩ := hi.quiet hq
  rcases mem_cons.mp hx with rfl | hx
  · obtain ⟨p, hp⟩ := hfirst shown hshown
    obtain ⟨last, now, hlast, -, -, hshows⟩ := hi.shows hshown
    refine ⟨last, now, fun h' hh' => hnew h' hh' last ?_, hshows⟩
    have hadded : added s c = [(epochAt s c, p)] := by simp [added, hp]
    rw [hadded] at hlast ⊢
    simpa using hlast.symm
  · obtain ⟨h, -, now, hle, hshows⟩ := (hi.call c).shows_log hx hshown
    rw [call_instanceId] at hshows
    exact ⟨h, now, fun h' hh' => (hend h' hh').trans_le hle, hshows⟩

end Calls

end Emosa.Reports
