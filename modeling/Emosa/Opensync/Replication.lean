import Emosa.Opensync.SessionSpec
import Emosa.Opensync.Sync

/-!
# Emosa.Opensync.Replication

The session's cache is a past state of the database. While the session is ready, the cache shows the
monitored columns as the last reported commit of the connection left them.

* `Client.pass_cases`: the session after a pass is what the pump left of it, or its cache is filled
  from the monitor's reply.
* `World.Inv`: what every state of a run satisfies.
-/

namespace Emosa.Opensync

open Durable

variable {V : Type}

/-! ## Calls -/

namespace Client

open Session

section

variable (s : Session V)

variable (call : Call)

theorem fails_derived (e : Exn) :
    Derived s (fails s call e).session := by
  unfold fails
  split
  · exact .refl s
  · exact ⟨rfl, rfl, .inl rfl⟩
  · exact .refl s

theorem fails_phase (e : Exn) : (fails s call e).phase = .idle := by
  unfold fails
  split <;> rfl

theorem ask_derived (sent : Bool) (next : Wait → Phase) :
    Derived s (ask s call sent next).session := by
  unfold ask
  split
  · exact ⟨rfl, rfl, .inr ⟨rfl, rfl, rfl, rfl, rfl⟩⟩
  · exact fails_derived s call .connection

theorem start_derived (sent : Bool) :
    Derived s (start s call sent).session := by
  unfold start
  split
  · exact .refl s
  · exact ask_derived s call sent _

theorem choose_derived {s : Session V} (hs : s.ready = false) (call : Call) (payload : Payload V)
    (sent : Bool) : Derived s (choose s call payload sent).session := by
  -- the schema, the selection and the monitor's name are those of a session that is not ready
  have hany : ∀ s₁ : Session V, s₁.cache = s.cache → s₁.generation = s.generation →
      s₁.ready = false → Derived s s₁ := fun s₁ hcache hgen hready => ⟨hcache, hgen, .inl hready⟩
  unfold choose
  split
  · simp only
    split
    · refine Derived.trans ?_ (fails_derived _ call _)
      exact hany _ rfl rfl hs
    · refine Derived.trans ?_ (ask_derived _ call sent _)
      exact hany _ rfl rfl hs
  · exact fails_derived s call _

theorem finish_derived (sent : Bool) :
    Derived s (finish s call sent).session := by
  unfold finish
  split
  · exact fails_derived s call _
  · cases call with
    | snapshot => exact .refl s
    | transact id generation discard =>
      simp only
      split
      · exact .refl s
      · split <;> exact .refl s

/-- What holds of the session in a wait of `_sync`. -/
def Control (c : Client V) : Prop :=
  match c.phase with
  | .schema _ w => c.session.ready = false ∧ w.generation = c.session.generation
  | .monitor _ w => c.session.ready = false ∧ w.generation = c.session.generation ∧
      c.session.monitorId = some (monitorName c.session.generation)
  | _ => True

theorem control_idle {c : Client V} (h : c.phase = .idle) : c.Control := by
  simp [Control, h]

theorem ask_control {s : Session V} {call : Call} {sent : Bool} {next : Wait → Phase}
    (h : ({ session := { s with nextId := s.nextId + 1 }
            phase := next ⟨.number s.nextId, s.generation, false⟩ } : Client V).Control) :
    (ask s call sent next).Control := by
  unfold ask
  split
  · exact h
  · exact control_idle (fails_phase s call _)

theorem choose_control {s : Session V} (hs : s.ready = false) (call : Call) (payload : Payload V)
    (sent : Bool) : (choose s call payload sent).Control := by
  unfold choose
  split
  · simp only
    split
    · exact control_idle (fails_phase _ call _)
    · exact ask_control ⟨hs, rfl, rfl⟩
  · exact control_idle (fails_phase s call _)

theorem finish_control (sent : Bool) :
    (finish s call sent).Control := by
  unfold finish
  split
  · exact control_idle (fails_phase s call _)
  · cases call with
    | snapshot => trivial
    | transact id generation discard =>
      simp only
      split
      · trivial
      · split <;> trivial

theorem pass_control {c : Client V} (hc : c.Control) (a : Arrival V) (sent : Bool) :
    (c.pass a sent).Control := by
  obtain ⟨s, phase⟩ := c
  unfold pass
  cases phase with
  | idle => exact hc
  | connecting call =>
    simp only
    split
    · exact control_idle (fails_phase _ call _)
    · split
      · unfold start
        split
        · trivial
        · rename_i hready
          exact ask_control ⟨by simpa using hready, rfl⟩
      · trivial
  | schema call w =>
    simp only
    split
    · exact control_idle (fails_phase _ call _)
    · rename_i s' payload h
      obtain ⟨rfl, -⟩ := hear_ok hc.2 h
      exact choose_control hc.1 call payload sent
    · rename_i s' h
      have hstays := hear_none hc.2 h
      exact ⟨hstays.ready hc.1, hc.2.trans hstays.generation.symm⟩
  | monitor call w =>
    simp only
    split
    · exact control_idle (fails_phase _ call _)
    · rename_i s' payload h
      unfold fill
      split
      · exact control_idle (fails_phase _ call _)
      · trivial
    · rename_i s' h
      obtain ⟨hready, hgen, hid⟩ := hc
      have hstays := hear_none hgen h
      refine ⟨hstays.ready hready, hgen.trans hstays.generation.symm, ?_⟩
      rw [hstays.monitorId, hstays.generation]
      exact hid
  | draining call left =>
    simp only
    split
    · exact control_idle (fails_phase _ call _)
    · split
      · exact finish_control _ call sent
      · trivial
  | transacting w =>
    simp only
    split <;> trivial

theorem step_control {c : Client V} (hc : c.Control) (i : Input V) : (c.step i).Control := by
  cases i with
  | call call =>
    simp only [step]
    split
    · trivial
    · exact hc
  | reconnect =>
    simp only [step]
    split
    · rename_i hphase
      exact control_idle hphase
    · exact hc
  | pass a sent => exact pass_control hc a sent
  | stop | expire =>
    obtain ⟨s, phase⟩ := c
    cases phase with
    | connecting call | schema call w | monitor call w => exact control_idle (fails_phase _ call _)
    | transacting w => trivial
    | idle | draining call left => exact hc

/-- The cache is filled from the monitor's reply. -/
def Filled (c : Client V) (a : Arrival V) (s' : Session V) : Prop :=
  ∃ call w u size candidate, c.phase = .monitor call w ∧
    a = ⟨.same, .message (.reply w.id (.updates u)) size⟩ ∧
    c.session.admitted true u = some candidate ∧
    s' = { c.session.cached candidate with ready := true }

theorem fill_cases (payload : Payload V) :
    Derived s (fill s call payload).session ∨
    ∃ u candidate, payload = .updates u ∧ s.admitted true u = some candidate ∧
      (fill s call payload).session = { s.cached candidate with ready := true } := by
  unfold fill update
  cases payload with
  | updates u =>
    simp only [Payload.updates?, Option.bind_some]
    cases hadm : s.admitted true u with
    | none => exact .inl ((invalidate_derived s).trans (fails_derived _ call _))
    | some candidate => exact .inr ⟨u, candidate, rfl, hadm, rfl⟩
  | schema _ | results _ | other =>
    exact .inl ((invalidate_derived s).trans (fails_derived _ call _))

end

theorem result_ok_eq {m : Message V} {id : Id} {u : Updates V} (hans : m.answers id = true)
    (h : m.result = .ok (.updates u)) : m = .reply id (.updates u) := by
  cases m with
  | reply id' payload =>
    have hid : id' = id := by simpa [Message.answers] using hans
    cases h
    rw [hid]
  | update _ | notify | error _ | request _ => cases h

theorem pass_cases {c : Client V} (hc : c.Control) (hphase : c.phase ≠ .idle) (a : Arrival V)
    (sent : Bool) :
    Derived (c.session.pump a).1 (c.pass a sent).session ∨ c.Filled a (c.pass a sent).session := by
  obtain ⟨s, phase⟩ := c
  have hhear := fun w => hear_derived s w a
  unfold pass
  cases phase with
  | idle => exact absurd rfl hphase
  | connecting call =>
    refine .inl ?_
    generalize s.pump a = out
    obtain ⟨s₁, e | r⟩ := out
    · exact fails_derived s₁ call e
    · simp only
      split
      · exact start_derived s₁ call sent
      · exact .refl s₁
  | schema call w =>
    refine .inl ((hhear w).trans ?_)
    simp only
    generalize hh : s.hear w a = out
    obtain ⟨s₁, _ | e | payload⟩ := out
    · exact .refl s₁
    · exact fails_derived s₁ call e
    · obtain ⟨rfl, -⟩ := hear_ok hc.2 hh
      exact choose_derived hc.1 call payload sent
  | monitor call w =>
    have hderived := hhear w
    simp only
    generalize hh : s.hear w a = out at hderived
    obtain ⟨s₁, _ | e | payload⟩ := out
    · exact .inl hderived
    · exact .inl (hderived.trans (fails_derived s₁ call e))
    · rcases fill_cases s₁ call payload with hfill | ⟨u, candidate, rfl, hadm, hfill⟩
      · exact .inl (hderived.trans hfill)
      · obtain ⟨rfl, m, size, rfl, hans, hres⟩ := hear_ok hc.2.1 hh
        refine .inr ⟨call, w, u, size, candidate, rfl, ?_, hadm, hfill⟩
        rw [result_ok_eq hans hres]
  | draining call left =>
    refine .inl ?_
    generalize s.pump a = out
    obtain ⟨s₁, e | r⟩ := out
    · exact fails_derived s₁ call e
    · simp only
      split
      · exact finish_derived s₁ call sent
      · exact .refl s₁
  | transacting w =>
    refine .inl ((hhear w).trans ?_)
    simp only
    generalize s.hear w a = out
    obtain ⟨s₁, _ | r⟩ := out <;> exact .refl s₁

theorem step_derived (c : Client V) {i : Input V}
    (h : ∀ a sent, i = .pass a sent → c.phase = .idle) : Derived c.session (c.step i).session := by
  obtain ⟨s, phase⟩ := c
  have hinv := invalidate_derived s
  cases i with
  | call call =>
    simp only [step]
    split <;> exact .refl s
  | reconnect =>
    simp only [step]
    split
    · exact hinv
    · exact .refl s
  | pass a sent =>
    obtain rfl : phase = .idle := h a sent rfl
    exact .refl s
  | stop =>
    cases phase with
    | connecting call | schema call w | monitor call w => exact fails_derived s call _
    | transacting w | idle | draining call left => exact .refl s
  | expire =>
    cases phase with
    | connecting call => exact fails_derived s call _
    | schema call w | monitor call w => exact hinv.trans (fails_derived _ call _)
    | transacting w => exact hinv
    | idle | draining call left => exact .refl s

end Client

/-- Every update notification is whole. -/
def Event.Whole (e : Event V) : Prop :=
  ∀ link ps size sent, e.input = .pass ⟨link, .message (.update ps) size⟩ sent → Session.Whole ps

namespace World

open Session

/-- The cache shows the database after the last commit told on the connection. -/
structure Shows (w : World V) : Prop where
  monitorId : w.client.session.monitorId = some (monitorName w.client.session.generation)
  columns : w.columns = w.client.session.selected
  cache : ∃ db, w.history.getLast? = some db ∧
    shown w.client.session.cache = monitored w.client.session.selected db

structure Inv (w : World V) : Prop where
  control : w.client.Control
  shows : w.client.session.ready = true → w.Shows

/-- The session of a step that leaves it ready: as it was, with an update in the cache, or filled. -/
theorem ready_cases {c : Client V} (hc : c.Control) {i : Input V}
    (h : (c.step i).session.ready = true) :
    Same c.session (c.step i).session ∧
      (∀ p q rest link size sent, c.phase ≠ .idle →
        i = .pass ⟨link, .message (.update (p :: q :: rest)) size⟩ sent →
        p.names c.session.monitorId = false) ∨
    (∃ a sent u candidate, i = .pass a sent ∧ c.session.Admits a u candidate ∧
      Same (c.session.cached candidate) (c.step i).session) ∨
    ∃ a sent, i = .pass a sent ∧ c.Filled a (c.step i).session := by
  have hup : ∀ {s₁ : Session V}, Derived s₁ (c.step i).session → Same s₁ (c.step i).session :=
    fun hd => hd.same.resolve_left (by simp [h])
  by_cases hpass : ∃ a sent, i = .pass a sent ∧ c.phase ≠ .idle
  · obtain ⟨a, sent, rfl, hphase⟩ := hpass
    rcases c.pass_cases hc hphase a sent with hd | hfilled
    · have hsame := hup hd
      rcases c.session.pump_cases a with hdown | ⟨heq, hno⟩ | ⟨u, candidate, hadm, heq⟩
      · rw [hsame.ready, hdown] at h
        cases h
      · refine .inl ⟨heq ▸ hsame, fun p q rest link size sent' _ heq' => ?_⟩
        cases heq'
        exact hno p q rest size rfl
      · exact .inr (.inl ⟨a, sent, u, candidate, rfl, hadm, heq ▸ hsame⟩)
    · exact .inr (.inr ⟨a, sent, rfl, hfilled⟩)
  · refine .inl ⟨hup (c.step_derived fun a sent hi => ?_), fun p q rest link size sent hphase hi => ?_⟩
    · exact Classical.not_not.mp fun hphase => hpass ⟨a, sent, hi, hphase⟩
    · exact absurd ⟨_, sent, hi, hphase⟩ hpass

theorem step_generation {c : Client V} (hc : c.Control) (i : Input V) :
    c.session.generation ≤ (c.step i).session.generation := by
  by_cases hpass : ∃ a sent, i = .pass a sent ∧ c.phase ≠ .idle
  · obtain ⟨a, sent, rfl, hphase⟩ := hpass
    rcases c.pass_cases hc hphase a sent with hd | ⟨_, _, _, _, _, _, _, _, heq⟩
    · exact (c.session.pump_generation a).trans hd.generation.ge
    · show _ ≤ (c.pass a sent).session.generation
      rw [heq]
      exact Nat.le_refl _
  · refine (c.step_derived fun a sent hi => ?_).generation.ge
    exact Classical.not_not.mp fun hphase => hpass ⟨a, sent, hi, hphase⟩

theorem shown_admitted {s : Session V} {initial : Bool} {u : Updates V} {candidate : Tables V}
    (h : s.admitted initial u = some candidate) :
    shown candidate = Replica.update (shown (if initial then ∅ else s.cache)) (delta u) := by
  rw [admitted_eq h, shown_applyTables]

variable {w : World V}

theorem Shows.of_same {s : Session V} {db : Db V} (hsame : Same s w.client.session)
    (hid : s.monitorId = some (monitorName s.generation)) (hcols : w.columns = s.selected)
    (hlast : w.history.getLast? = some db) (hcache : shown s.cache = monitored s.selected db) :
    w.Shows where
  monitorId := by rw [hsame.monitorId, hsame.generation, hid]
  columns := hcols.trans hsame.selected.symm
  cache := ⟨db, hlast, by rw [hsame.cache, hsame.selected, hcache]⟩

section

variable {e : Event V}

theorem client_step (w : World V) (e : Event V) : (w.step e).client = w.client.step e.input := by
  unfold World.step
  cases e.told <;> rfl

theorem Inv.silent (hw : w.Inv) (hserved : w.Served e) (hwhole : e.Whole) (htold : e.told = .silent)
    (hready : (w.step e).client.session.ready = true) : (w.step e).Shows := by
  obtain ⟨i, told⟩ := e
  obtain rfl : told = .silent := htold
  rcases ready_cases hw.control hready with
    ⟨hsame, -⟩ | ⟨a, sent, u, candidate, rfl, hadm, hsame⟩ | ⟨a, sent, rfl, hfilled⟩
  · obtain ⟨hid, hcols, db, hlast, hcache⟩ := hw.shows (hsame.ready ▸ hready)
    refine .of_same hsame hid hcols ?_ hcache
    show (if _ then w.history else []).getLast? = some db
    rw [if_pos hsame.generation, hlast]
  · obtain ⟨hmeet, p, q, rest, size, rfl, hsize, hp, hu, hsome⟩ := hadm
    obtain ⟨-, hno⟩ := hserved .same _ size sent rfl
    rw [hmeet] at hno
    have hnone := (hno p q rest rfl (hsame.ready ▸ hready) hp).refused hsize (hwhole _ _ _ _ rfl)
    rw [hu, Option.bind_some, hsome] at hnone
    cases hnone
  · obtain ⟨call, wait, u, size, candidate, hphase, rfl, -⟩ := hfilled
    exact absurd rfl ((hserved .same _ size sent rfl).1 call wait (.updates u) hphase)

/-- The reply to the monitor request is the database, so the cache made from it alone shows it. -/
theorem Inv.answers (hw : w.Inv) (hserved : w.Served e) {db : Db V}
    (htold : e.told = .answers db) (hready : (w.step e).client.session.ready = true) :
    (w.step e).Shows := by
  obtain ⟨i, told⟩ := e
  obtain rfl : told = .answers db := htold
  obtain ⟨call, wait, u, size, sent, hphase, hi, hreports⟩ := hserved
  subst hi
  have hctl := hw.control
  simp only [Client.Control, hphase] at hctl
  obtain ⟨hdown, hgen, hid⟩ := hctl
  rcases ready_cases hw.control hready with
    ⟨hsame, -⟩ | ⟨a, sent', u', candidate, ha, hadm, hsame⟩ | ⟨a, sent', ha, hfilled⟩
  · have hwas := hsame.ready.symm.trans hready
    rw [hdown] at hwas
    cases hwas
  · obtain ⟨-, p, q, rest, size', rfl, -⟩ := hadm
    cases ha
  · obtain ⟨call', wait', u', size', candidate, hphase', rfl, hsome, heq⟩ := hfilled
    obtain ⟨rfl, rfl⟩ := Phase.monitor.inj (hphase.symm.trans hphase')
    cases ha
    have hcache : shown candidate = monitored w.client.session.selected db := by
      rw [shown_admitted hsome]
      exact Replica.update_reports hreports Replica.shaped_empty (shaped_monitored _ db)
    refine .of_same (s := { w.client.session.cached candidate with ready := true }) ?_ hid rfl
      List.getLast?_concat hcache
    exact heq ▸ .refl _

/-- An update reports the next commit; a session that stays ready has put it into its cache. -/
theorem Inv.commits (hw : w.Inv) (hserved : w.Served e) {db : Db V}
    (htold : e.told = .commits db) (hready : (w.step e).client.session.ready = true) :
    (w.step e).Shows := by
  obtain ⟨i, told⟩ := e
  obtain rfl : told = .commits db := htold
  obtain ⟨before, u, size, sent, hphase, hlast, hi, hreports⟩ := hserved
  subst hi
  rcases ready_cases hw.control hready with
    ⟨hsame, hno⟩ | ⟨a, sent', u', candidate, ha, hadm, hsame⟩ | ⟨a, sent', ha, hfilled⟩
  · obtain ⟨hid, -⟩ := hw.shows (hsame.ready ▸ hready)
    have hp := hno _ _ [] .same size sent hphase rfl
    simp [Param.names, hid] at hp
  · obtain ⟨hmeet, p, q, rest, size', rfl, -, -, hu, hsome⟩ := hadm
    cases ha
    obtain rfl := Option.some.inj hu
    obtain ⟨hid, hcols, db₀, hlast₀, hcache⟩ := hw.shows (hsame.ready ▸ hready)
    obtain rfl : before = db₀ := Option.some.inj (hlast.symm.trans hlast₀)
    rw [hcols] at hreports
    have hnew : shown candidate = monitored w.client.session.selected db := by
      rw [shown_admitted hsome, if_neg (by simp), hcache]
      exact Replica.update_reports hreports (shaped_monitored _ before) (shaped_monitored _ db)
    exact .of_same hsame hid hcols List.getLast?_concat hnew
  · obtain ⟨_, _, _, _, _, _, rfl, -⟩ := hfilled
    cases ha

theorem Inv.step (hw : w.Inv) (hserved : w.Served e) (hwhole : e.Whole) : (w.step e).Inv := by
  refine ⟨w.client_step e ▸ w.client.step_control hw.control e.input, fun hready => ?_⟩
  cases htold : e.told with
  | answers db => exact hw.answers hserved htold hready
  | commits db => exact hw.commits hserved htold hready
  | silent => exact hw.silent hserved hwhole htold hready

theorem init_inv (monitorColumns : Selected) (rowLimit messageLimit : Nat) (pinned readOnly : Bool) :
    (init monitorColumns rowLimit messageLimit pinned readOnly : World V).Inv :=
  ⟨trivial, fun h => absurd h (by simp [init])⟩

theorem step_history (w : World V) (e : Event V)
    (h : (w.step e).client.session.generation = w.client.session.generation) :
    w.history <+: (w.step e).history := by
  revert h
  unfold World.step
  cases e.told with
  | answers db | commits db =>
    intro h
    simp only [if_pos h]
    exact List.prefix_append w.history [db]
  | silent =>
    intro h
    simp only [if_pos h]
    exact List.prefix_refl w.history

theorem run_history (hw : w.Inv) {es : List (Event V)}
    (h : Meets World.step (fun w e => w.Served e ∧ e.Whole) w es) :
    w.client.session.generation ≤ (w.run es).client.session.generation ∧
    ((w.run es).client.session.generation = w.client.session.generation →
      w.history <+: (w.run es).history) := by
  induction es generalizing w with
  | nil => exact ⟨Nat.le_refl _, fun _ => List.prefix_refl _⟩
  | cons e es ih =>
    obtain ⟨hle, hlead⟩ := ih (hw.step h.1.1 h.1.2) h.2
    have hgen : w.client.session.generation ≤ (w.step e).client.session.generation := by
      rw [client_step]
      exact step_generation hw.control e.input
    refine ⟨hgen.trans hle, fun heq => ?_⟩
    have hstep : (w.step e).client.session.generation = w.client.session.generation :=
      Nat.le_antisymm (hle.trans heq.le) hgen
    exact (step_history w e hstep).trans (hlead (heq.trans hstep.symm))

theorem step_refuses (hw : w.Inv) (he : e.Whole) {a : Arrival V} {sent : Bool}
    (hi : e.input = .pass a sent) (hphase : w.client.phase ≠ .idle)
    (h : w.client.session.Refuses a) :
    (w.client.step e.input).session.cache = w.client.session.cache ∧
      (w.client.step e.input).session.ready = false := by
  have hwhole : ∀ ps size, a.received = .message (.update ps) size → Session.Whole ps :=
    fun ps size hrec => he a.link ps size sent (by rw [hi, ← hrec])
  obtain ⟨hcache, hdown⟩ := pump_refuses h hwhole
  rw [hi]
  rcases w.client.pass_cases hw.control hphase a sent with hd | hfilled
  · refine ⟨hd.cache.trans hcache, ?_⟩
    rcases hd.same with hfalse | hsame
    · exact hfalse
    · exact hsame.ready.trans hdown
  · obtain ⟨_, _, _, _, _, _, rfl, -⟩ := hfilled
    obtain ⟨_, _, _, hrec, -⟩ := h
    cases hrec

end

theorem step_fills (hw : w.Inv) {i : Input V} (hdown : w.client.session.ready = false)
    (hup : (w.client.step i).session.ready = true) :
    ∃ a sent, i = .pass a sent ∧ w.client.Filled a (w.client.step i).session := by
  rcases ready_cases hw.control hup with ⟨hsame, -⟩ | ⟨_, _, _, _, _, _, hsame⟩ | hfilled
  · rw [hsame.ready, hdown] at hup
    cases hup
  · rw [hsame.ready] at hup
    exact absurd (hdown.symm.trans hup) (by simp)
  · exact hfilled

end World

/-- In every run in which the server serves its monitor and every update notification is whole: while
the session is ready its cache is the last commit told on the connection, the history of a connection
only grows, an update that does not pass leaves the cache and ends readiness, and readiness comes back
only with a monitor's reply that is applied. -/
theorem cache_replicates (monitorColumns : Selected) (rowLimit messageLimit : Nat)
    (pinned readOnly : Bool) (es : List (Event V))
    (h : Meets World.step (fun w e => w.Served e ∧ e.Whole)
      (World.init monitorColumns rowLimit messageLimit pinned readOnly) es) :
    let start := World.init monitorColumns rowLimit messageLimit pinned readOnly
    let w := start.run es
    (w.client.session.ready = true → ∃ db, w.history.getLast? = some db ∧
      shown w.client.session.cache = monitored w.client.session.selected db) ∧
    (∀ before rest, es = before ++ rest →
      (start.run before).client.session.generation = w.client.session.generation →
      (start.run before).history <+: w.history) ∧
    ∀ before e rest, es = before ++ e :: rest →
      (∀ a sent, e.input = .pass a sent → (start.run before).client.phase ≠ .idle →
        (start.run before).client.session.Refuses a →
        ((start.run before).client.step e.input).session.cache =
            (start.run before).client.session.cache ∧
          ((start.run before).client.step e.input).session.ready = false) ∧
      ((start.run before).client.session.ready = false →
        ((start.run before).client.step e.input).session.ready = true →
        ∃ a sent, e.input = .pass a sent ∧
          (start.run before).client.Filled a ((start.run before).client.step e.input).session) := by
  intro start w
  have hinv : ∀ {es}, Meets World.step (fun w e => w.Served e ∧ e.Whole) start es →
      (start.run es).Inv := fun hes =>
    runs_invariant (fun _ _ hw hok => hw.step hok.1 hok.2) hes (World.init_inv _ _ _ _ _)
  refine ⟨fun hready => (hinv h).shows hready |>.cache, ?_, ?_⟩
  · rintro before rest rfl hgen
    obtain ⟨hbefore, hrest⟩ := (meets_append start before rest).mp h
    have hw : w = (start.run before).run rest := List.foldl_append
    rw [hw] at hgen ⊢
    exact (World.run_history (hinv hbefore) hrest).2 hgen.symm
  · rintro before e rest rfl
    obtain ⟨hbefore, hrest⟩ := (meets_append start before (e :: rest)).mp h
    have hw := hinv hbefore
    exact ⟨fun a sent hi hphase hr => World.step_refuses hw hrest.1.2 hi hphase hr,
      fun hdown hup => World.step_fills hw hdown hup⟩

/-! ## A session with an empty table -/

namespace NodeTable

def start : World String := .init ((∅ : Selected).set "Node" ["name"]) 10000 16777216 false true

def schema : Schema String := ⟨fun _ => some ["name"], fun _ _ => true, true⟩

def reads (m : Message String) : Input String := .pass ⟨.same, .message m 90⟩ true

def empty : Db String := fun _ _ => none

def one : Db String := fun table uuid => if table = "Node" ∧ uuid = "a" then some fun _ => "pod" else none

def insertion : Updates String :=
  (∅ : Updates String).set "Node"
    ((∅ : Dict String (Option (Row String))).set "a" (some ((∅ : Row String).set "name" "pod")))

/-- A snapshot is called for, the session connects, reads the schema and has its monitor answered. -/
def opening : List (Event String) :=
  [⟨.call .snapshot, .silent⟩,
   ⟨.pass ⟨.fresh true, .nothing⟩ true, .silent⟩,
   ⟨reads (.reply (.number 0) (.schema schema)), .silent⟩,
   ⟨reads (.reply (.number 1) (.updates ∅)), .answers empty⟩]

def inserted : Event String := ⟨reads (.update [.text "emosa-1", .updates insertion]), .commits one⟩

/-- An update with the monitor's name and nothing else. -/
def short : Event String := ⟨reads (.update [.text "emosa-1"]), .silent⟩

theorem shown_one (k : String × String) :
    monitored ((∅ : Selected).set "Node" ["name"]) one k =
      if k = ("Node", "a") then some fun c => if c = "name" then some "pod" else none else none := by
  obtain ⟨table, uuid⟩ := k
  by_cases ht : table = "Node"
  · subst ht
    by_cases hu : uuid = "a"
    · subst hu
      simp [monitored, one]
    · simp [monitored, one]
  · simp [monitored, one, ht]

theorem delta_insertion (k : String × String) :
    delta insertion k =
      if k = ("Node", "a") then
        some (.new fun c => if c = "name" then some "pod" else none) else none := by
  obtain ⟨table, uuid⟩ := k
  by_cases ht : table = "Node"
  · subst ht
    by_cases hu : uuid = "a"
    · subst hu
      simp [delta, insertion, Dict.get?_set]
    · simp [delta, insertion, Dict.get?_set]
  · simp [delta, insertion, ht, Dict.get?_set]

theorem opening_served :
    Meets World.step (fun w e => w.Served e ∧ e.Whole) start opening := by
  refine ⟨⟨?_, ?_⟩, ⟨?_, ?_⟩, ⟨?_, ?_⟩, ⟨?_, ?_⟩, trivial⟩
  · rintro link m size sent ⟨⟩
  · rintro link ps size sent ⟨⟩
  · rintro link m size sent ⟨⟩
  · rintro link ps size sent ⟨⟩
  · rintro link m size sent ⟨⟩
    exact ⟨by rintro call wait payload ⟨⟩, by rintro p q rest ⟨⟩⟩
  · rintro link ps size sent ⟨⟩
  · refine ⟨.snapshot, ⟨.number 1, 1, false⟩, ∅, 90, true, rfl, rfl, fun k _ => ?_, ?_, ?_⟩
    · simp [monitored, empty]
    · rintro k ⟨⟩
    · rintro k cells ⟨⟩
  · rintro link ps size sent ⟨⟩

theorem inserted_served : (start.run opening).Served inserted ∧ inserted.Whole := by
  refine ⟨⟨empty, insertion, 90, true, ?_, rfl, rfl, ?_⟩, ?_⟩
  · rintro ⟨⟩
  · have hcols : (start.run opening).columns = (∅ : Selected).set "Node" ["name"] := rfl
    rw [hcols]
    refine ⟨fun k hk => ?_, fun k hk => ?_, fun k cells hk => ?_⟩
    · rw [delta_insertion] at hk
      rw [shown_one]
      split at hk
      · cases hk
      · rename_i hne
        simp [monitored, empty, hne]
    · rw [delta_insertion] at hk
      split at hk <;> cases hk
    · rw [delta_insertion] at hk
      rw [shown_one]
      split at hk
      · rename_i heq
        cases hk
        rw [if_pos heq]
      · cases hk
  · rintro link ps size sent ⟨⟩
    exact ⟨Nat.le_refl 2, by rintro p u rest ⟨⟩⟩

theorem short_served : (start.run opening).Served short := by
  rintro link m size sent ⟨⟩
  exact ⟨by rintro call wait payload ⟨⟩, by rintro p q rest ⟨⟩⟩

/-- An update of which the row's change is an empty object. -/
def loose : Event String :=
  ⟨reads (.update [.text "emosa-1", .loose ((∅ : Updates String).set "Node"
    ((∅ : Dict String (Option (Row String))).set "a" none))]), .silent⟩

theorem loose_served : (start.run (opening ++ [inserted])).Served loose := by
  rintro link m size sent ⟨⟩
  refine ⟨by rintro call wait payload ⟨⟩, ?_⟩
  rintro p q rest ⟨⟩ - -
  exact .inr fun u hu => by cases hu

end NodeTable

open NodeTable

/-- After the row's commit the session is ready, and its cache shows the row. -/
theorem inserted_row_shown :
    (start.run (opening ++ [inserted])).client.session.ready = true ∧
    ∃ db, (start.run (opening ++ [inserted])).history.getLast? =
        some db ∧
      shown (start.run (opening ++ [inserted])).client.session.cache =
        monitored (start.run
          (opening ++ [inserted])).client.session.selected db :=
  have hready : (start.run
      (opening ++ [inserted])).client.session.ready = true := by decide +kernel
  ⟨hready, (cache_replicates _ 10000 16777216 false true (opening ++ [inserted])
    ((meets_append _ _ _).mpr
      ⟨opening_served, inserted_served, trivial⟩)).1 hready⟩

/-- The first update has lost its contents, and with them a commit: the snapshot that met it fails with
an exception nobody handles, and the session is still ready. Of the second the row's change is no
change, and the row is deleted: the session is ready and does not have the row that the database has. -/
theorem short_update_stays_ready :
    (start.run opening).Served short ∧
    (∃ a sent, short.input = .pass a sent ∧
      (start.run opening).client.phase ≠ .idle ∧
      (start.run opening).client.session.Refuses a) ∧
    ((start.run opening).client.step
      short.input).session.ready = true ∧
    (start.run (opening ++ [inserted])).Served loose ∧
    (start.run (opening ++ [inserted,
      loose])).client.session.ready = true ∧
    ∃ db, (start.run (opening ++ [inserted,
        loose])).history.getLast? = some db ∧
      shown (start.run (opening ++ [inserted,
        loose])).client.session.cache ("Node", "a") = none ∧ (db "Node" "a").isSome := by
  refine ⟨short_served, ⟨_, _, rfl, by rintro ⟨⟩, ?_⟩, by decide +kernel,
    loose_served, by decide +kernel, one, rfl, by decide +kernel, rfl⟩
  exact ⟨_, _, _, rfl, by decide +kernel, by rintro q rest ⟨⟩⟩

end Emosa.Opensync
