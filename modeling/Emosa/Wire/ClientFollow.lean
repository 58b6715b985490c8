import Emosa.Wire.BridgeAtomic
import Emosa.Wire.Onboarding

/-!
# Emosa.Wire.ClientFollow

What a controller knows of a pod's clients that only counts the Client Association Events it is sent
(`followed`).

* `announceClients_completed`: the events of one tick.
* `notify_follows`: one tick that completes; the re-announcement starts from no remembered client, so
  a client that left since the tick before is never reported as gone.
* `clients_followed`: over every run in which none has left by then.
-/

namespace Emosa.Onboarding

open Durable Handover
open Handover (Carrier)

/-- The clients of a controller that was told `told`. -/
def followed (told : List (Bool × Client)) : List Client := told.foldl Session.put []

theorem mem_put {set : List Client} {e : Bool × Client} {c : Client} :
    c ∈ Session.put set e ↔ if c = e.2 then e.1 = true else c ∈ set := by
  obtain ⟨joined, d⟩ := e
  cases joined with
  | false => by_cases hc : c = d <;> simp [Session.put, hc]
  | true =>
    by_cases hd : d ∈ set
    · by_cases hc : c = d
      · subst hc
        simp [Session.put, hd]
      · simp [Session.put, hd, hc]
    · by_cases hc : c = d <;> simp [Session.put, hd, hc]

def events (now changed : List Client) : List (Bool × Client) :=
  changed.map fun c => (Session.joined now c, c)

theorem mem_foldl_put {now : List Client} {c : Client} (changed set : List Client) :
    c ∈ (events now changed).foldl Session.put set ↔
      if c ∈ changed then c ∈ now else c ∈ set := by
  induction changed generalizing set with
  | nil => simp [events]
  | cons d changed ih =>
    rw [events, List.map_cons, List.foldl_cons, ← events, ih, mem_put]
    by_cases hc : c ∈ changed
    · simp [hc]
    · by_cases hd : c = d
      · simp [hd, Session.joined]
      · simp [hd]

theorem mem_differing {clients last : List Client} {c : Client} :
    c ∈ Session.differing clients last ↔ (c ∈ clients ↔ c ∉ last) := by
  rw [Session.differing]
  by_cases hc : c ∈ clients <;> by_cases hl : c ∈ last <;> simp [hl]

namespace Session

variable {I δ : Type} {v : Setup} (x : Session I δ)

/-! ## Steps that leave the clients -/

@[simp] theorem clients_note (e : Event) : (x.note e).clients = x.clients := rfl

@[simp] theorem clients_enter (s : State) : (x.enter s).clients = x.clients := rfl

@[simp] theorem clients_close : x.close.clients = x.clients := rfl

@[simp] theorem clients_lost : x.lost.clients = x.clients := rfl

@[simp] theorem clients_fail : x.fail.clients = x.clients := rfl

@[simp] theorem clients_take (s : Published) : (x.take s).clients = x.clients := by
  unfold take
  split <;> rfl

@[simp] theorem clients_look (r : Reading) : (x.look v r).2.clients = x.clients := by
  have hsnap : (x.snapshot v r).2.clients = x.clients := by
    unfold snapshot
    split
    · rfl
    · dsimp only
      split_ifs <;> simp
    · dsimp only
      split_ifs <;> simp
  unfold look
  split <;> rename_i h <;> simpa [h] using hsnap

@[simp] theorem clients_looked (rs : List Reading) :
    (x.looked v rs).2.clients = x.clients :=
  looked_keeps (P := (·.clients = x.clients)) (fun h r => (clients_look _ r).trans h) rfl rs

@[simp] theorem clients_watched (rs : List Reading) :
    (x.watched v rs).clients = x.clients :=
  watched_keeps (P := (·.clients = x.clients)) (fun h r => (clients_look _ r).trans h) rfl rs

@[simp] theorem clients_sendAll (again : Bool) (stamp : Stamp) (x : Session I δ)
    (frames : List Attempt) : (x.sendAll v again stamp frames).2.clients = x.clients :=
  sendAll_keeps (P := (·.clients = x.clients)) (fun h r => (clients_look _ r).trans h) rfl
    again stamp frames

variable {x y : Session I δ}

section

variable {s : Published}

theorem clients_begin {i : TickInput} (h : x.begin v s i = some y) :
    y.clients = x.clients := by
  unfold begin at h
  split_ifs at h
  all_goals
    obtain rfl := Option.some.inj h
    rfl

section

variable (x : Session I δ)

theorem clients_searching (s : Published) (i : TickInput) :
    (x.searching v s i).clients = x.clients := by
  unfold searching
  split
  · rename_i d hd
    split_ifs
    · rfl
    · split
      · rfl
      · rename_i d' hd'
        have hsend := clients_sendAll (v := v) true s.stamp
          ({ x with discovery := some d' }.note (.search i.transmitted)) i.search
        split <;> rename_i y hy <;> rw [hy] at hsend <;> exact hsend
    · rfl
  · rfl

theorem clients_startRadio (i : RadioInput) :
    (x.startRadio v i).clients = x.clients := by
  unfold startRadio
  dsimp only
  split
  · rfl
  split
  · rfl
  · have hlooks := clients_looked (v := v)
      ({ x with nextRadio := x.nextRadio + 1, radioAwaiting := true }.note .m1) i.looks
    split <;> rename_i y hy <;> rw [hy] at hlooks
    · split_ifs <;> exact hlooks
    · exact hlooks

theorem clients_reportMoves (s : Published) (frames : List Attempt) :
    (x.reportMoves v s frames).2.clients = x.clients := by
  have hsend := clients_sendAll (v := v) false s.stamp x frames
  unfold reportMoves
  split_ifs
  · rfl
  · split <;> rename_i y hy <;> rw [hy] at hsend <;> exact hsend

theorem clients_notifyTopology (s : Published) (frames : List Attempt) :
    (x.notifyTopology v s frames).2.clients = x.clients := by
  have hsend := clients_sendAll (v := v) false s.stamp x frames
  unfold notifyTopology
  split_ifs
  · rfl
  · split <;> rename_i y hy <;> rw [hy] at hsend <;> exact hsend

end

/-! ## A tick's events -/

theorem announceClients_completed {frames : Client → List Attempt}
    {changed : List Client} (h : x.announceClients v s frames changed = (true, y)) :
    y.clients.last = (events s.clients changed).foldl put x.clients.last ∧
      y.clients.told = x.clients.told ++ events s.clients changed := by
  induction changed generalizing x with
  | nil =>
    obtain rfl : x = y := congrArg Prod.snd h
    simp [events]
  | cons c changed ih =>
    have hsend := clients_sendAll (v := v) true s.stamp x (frames c)
    unfold announceClients at h
    split at h <;> rename_i z hz
    · cases h
    · have hclients : z.clients = x.clients := by simpa only [hz] using hsend
      obtain ⟨hlast, htold⟩ := ih h
      simp [hlast, htold, tell, hclients, events]

theorem announce_follows {frames : Client → List Attempt}
    (h : x.announceClients v s frames (differing s.clients x.clients.last) = (true, y)) :
    (∀ c, c ∈ y.clients.last ↔ c ∈ s.clients) ∧
    ∀ c, c ∈ followed y.clients.told ↔
      if c ∈ x.clients.last then c ∈ s.clients ∧ c ∈ followed x.clients.told
      else c ∈ s.clients ∨ c ∈ followed x.clients.told := by
  obtain ⟨hlast, htold⟩ := announceClients_completed h
  have hfollowed : followed y.clients.told =
      (events s.clients (differing s.clients x.clients.last)).foldl put
        (followed x.clients.told) := by
    rw [htold, followed, List.foldl_append, followed]
  refine ⟨fun c => ?_, fun c => ?_⟩
  · simp only [hlast, mem_foldl_put, mem_differing]
    by_cases hc : c ∈ s.clients <;> by_cases hl : c ∈ x.clients.last <;> simp [hl]
  · simp only [hfollowed, mem_foldl_put, mem_differing]
    by_cases hc : c ∈ s.clients <;> by_cases hl : c ∈ x.clients.last <;> simp [hc]

/-- The controller knows the clients the session remembers. -/
def Known (x : Session I δ) : Prop := ∀ c, c ∈ followed x.clients.told ↔ c ∈ x.clients.last

/-- A re-announcement that is due finds every remembered client still there. -/
def Stays (x : Session I δ) (s : Published) : Prop :=
  x.clients.reannounce.due x.clients.responses = true → ∀ c ∈ x.clients.last, c ∈ s.clients

theorem notify_follows {i : TickInput} (h : x.notify v s i = (true, y))
    (hcomplete : s.inventoryComplete = true) (hknown : x.Known) (hstays : x.Stays s) :
    y.Known ∧ ∀ c, c ∈ followed y.clients.told ↔ c ∈ s.clients := by
  have hmoves := clients_reportMoves (v := v) x s i.moved
  unfold notify at h
  split at h
  · cases h
  rename_i x₁ hx₁
  have htopology := clients_notifyTopology (v := v) x₁ s i.topology
  split at h
  · cases h
  rename_i x₂ hx₂
  rw [hx₁] at hmoves
  rw [hx₂] at htopology
  have hclients : x₂.clients = x.clients := htopology.trans hmoves
  simp only [hcomplete] at h
  obtain ⟨hlast, htold⟩ := announce_follows h
  have hfollows : ∀ c, c ∈ followed y.clients.told ↔ c ∈ s.clients := by
    intro c
    rw [htold]
    simp only [reannounce, hclients]
    cases hdue : x.clients.reannounce.due x.clients.responses with
    | false =>
      by_cases hc : c ∈ x.clients.last <;> simp [hc, hknown c]
    | true =>
      -- every client is told again, and those the controller knew are among them
      have hsub := hstays hdue c
      simp only [hknown c]
      exact ⟨fun hc => hc.elim id hsub, .inl⟩
  exact ⟨fun c => (hfollows c).trans (hlast c).symm, hfollows⟩

theorem published_of_look {r : Reading} (h : x.look v r = (some s, y)) :
    r.current = some s := by
  have hsnap : (x.snapshot v r).1 = some s := by
    unfold look at h
    split at h <;> rename_i hs
    · rw [hs]
      exact congrArg Prod.fst h
    · cases congrArg Prod.fst h
  unfold snapshot at hsnap
  dsimp only at hsnap
  have hbound : ∀ {o : Option Published}, (if r.bound then r.current else none) = o → o = some s →
      r.current = some s := by
    rintro o ho rfl
    split_ifs at ho
    exact ho
  split at hsnap
  · exact hbound rfl hsnap
  · split_ifs at hsnap
  · rename_i s' _ hs'
    refine hbound hs' ?_
    split_ifs at hsnap <;> exact hsnap

end

theorem tick_cases (x : Session I δ) (i : TickInput) :
    ((x.tick v i).2.clients = x.clients ∧
      ∀ s, (x.tick v i).1 = .completed s → (x.tick v i).2.provisioning = none) ∨
    (x.tick v i).1 = .raised ∨
    ∃ s, ∃ y : Session I δ, i.first.current = some s ∧ y.clients = x.clients ∧ (x.tick v i).1 = .completed s ∧
      y.notify v s i = (true, (x.tick v i).2) := by
  have hlook := clients_look (v := v) x i.first
  unfold tick
  split
  · exact .inl ⟨rfl, nofun⟩
  split <;> rename_i x₁ hx₁ <;> rw [hx₁] at hlook
  · exact .inl ⟨hlook, nofun⟩
  rename_i s
  split
  · exact .inr (.inl rfl)
  rename_i x₂ hx₂
  have hsearch : (x₂.searching v s i).clients = x.clients :=
    (clients_searching x₂ s i).trans ((clients_begin hx₂).trans hlook)
  generalize x₂.searching v s i = x₃ at hsearch
  unfold announce
  split
  · rename_i hnone
    exact .inl ⟨hsearch, fun _ _ => Option.isNone_iff_eq_none.mp hnone⟩
  dsimp only
  have hradio : (if x₃.state = .provisioning then x₃.startRadio v i.radio else x₃).clients =
      x.clients := by
    split
    · exact (clients_startRadio x₃ i.radio).trans hsearch
    · exact hsearch
  generalize (if x₃.state = .provisioning then x₃.startRadio v i.radio else x₃) = x₄ at hradio
  split
  · exact .inl ⟨hradio, nofun⟩
  split <;> rename_i y hy
  · exact .inr (.inr ⟨s, x₄, published_of_look hx₁, hradio, rfl, hy⟩)
  · exact .inr (.inl rfl)

theorem tick_follows {i : TickInput} (hknown : x.Known) (hregular : (x.tick v i).1 ≠ .raised)
    (hcomplete : ∀ s, i.first.current = some s → s.inventoryComplete = true)
    (hstays : ∀ s, i.first.current = some s → x.Stays s) :
    (x.tick v i).2.Known ∧ ∀ s, (x.tick v i).1 = .completed s →
      (x.tick v i).2.provisioning ≠ none →
      ∀ c, c ∈ followed (x.tick v i).2.clients.told ↔ c ∈ s.clients := by
  rcases tick_cases x i with ⟨hclients, hnone⟩ | hraised | ⟨s, y, hs, hclients, hdone, hnotify⟩
  · refine ⟨fun c => ?_, fun s hdone hsome => absurd (hnone s hdone) hsome⟩
    rw [hclients]
    exact hknown c
  · exact absurd hraised hregular
  · have hy : y.Known := fun c => by rw [hclients]; exact hknown c
    have hys : y.Stays s := by
      have := hstays s hs
      unfold Stays at this ⊢
      rwa [hclients]
    obtain ⟨hknown', hfollows⟩ := notify_follows hnotify (hcomplete s hs) hy hys
    refine ⟨hknown', fun s' hdone' _ => ?_⟩
    obtain rfl : s = s' := Ticked.completed.inj (hdone.symm.trans hdone')
    exact hfollows

/-! ## Receive -/

section Receive

variable (x)

@[simp] theorem clients_withBridge {α : Type} (none : α)
    (f : BridgeSetup → Handover.World I δ → α × Handover.World I δ) :
    (x.withBridge none f).2.clients = x.clients := by
  unfold withBridge
  split <;> rfl

@[simp] theorem clients_failAdmission : x.failAdmission.clients = x.clients := by
  unfold failAdmission
  split <;> rfl

@[simp] theorem clients_admitted (w : Wait) :
    (x.admitted v w).2.clients = x.clients := by
  have hlook := clients_look (v := v) x w.reading
  unfold admitted
  split
  · rfl
  · split <;> rename_i h <;> rw [h] at hlook <;> exact hlook

variable [DecidableEq δ]

theorem clients_makeBridge (j : ResponseInput I) :
    (x.makeBridge v j).clients = x.clients := by
  unfold makeBridge
  split
  · rename_i u _ _
    dsimp only
    have hlook := clients_look (v := v) (x.attach u j) j.again
    generalize ((x.attach u j).look v j.again).2 = y at hlook ⊢
    split
    · exact hlook
    · have hstart : (y.start v j).2.clients = y.clients := by simp [start]
      split <;> rename_i z hz <;> rw [hz] at hstart
      · exact hstart.trans hlook
      · exact (clients_failAdmission z).trans (hstart.trans hlook)
  · exact clients_failAdmission x

theorem clients_receiveResponse (j : ResponseInput I) :
    (x.receiveResponse v j).clients = x.clients := by
  have honAdmission : ∀ y : Session I δ, (y.onAdmission v j).clients = y.clients := by
    intro y
    have hearly : (({ y with reports := true }.enter .admitting).sendEarly v j).2.clients =
        y.clients := by
      unfold sendEarly
      split <;> rfl
    unfold onAdmission
    split <;> rename_i z hz <;> rw [hz] at hearly
    · exact (clients_makeBridge z j).trans hearly
    · exact (clients_failAdmission z).trans hearly
  unfold receiveResponse
  split
  · dsimp only
    split
    · rfl
    split
    · rfl
    split
    · rfl
    · exact honAdmission _
  · rfl

theorem clients_reply (b : Engine.Replies) (guards : List Wait) (stage : Stage) :
    (x.reply v b guards stage).2.2.clients = x.clients := by
  have hguard : ∀ w, (x.guard v w).2.clients = x.clients := by
    intro w
    unfold guard
    split
    · rfl
    split
    · rfl
    · simp
  cases stage with
  | guard | recheck =>
    cases guards with
    | nil => rfl
    | cons w rest => exact hguard w
  | plan | snapshot | submit => rfl

variable [IntentType I]

theorem clients_execute (fps : Fingerprints I) (x : Session I δ) (j : WscInput)
    (id : String) : (x.execute v fps j id).2.clients = x.clients := by
  have hsegment : ∀ {α : Type} (y : Session I δ) (m : M I α), (y.segment m).2.clients = y.clients :=
    fun y m => clients_withBridge ..
  have hfinish : ∀ env b n guards next (y : Session I δ),
      (y.finish v env b n guards next).2.clients = y.clients := by
    intro env b n
    induction n with
    | zero => intro guards next y; cases next <;> rfl
    | succ n ih =>
      intro guards next y
      cases next with
      | done op => rfl
      | await task =>
        have hreply := clients_reply (v := v) y b guards task.stage
        unfold finish
        generalize y.reply v b guards task.stage = out at hreply
        obtain ⟨r, guards, z⟩ := out
        have hnext := hsegment z (Engine.resume env b.draw task r)
        dsimp only
        split <;> rename_i h <;> rw [h] at hnext
        · exact (ih _ _ _).trans (hnext.trans hreply)
        · exact hnext.trans hreply
  unfold execute
  split
  · rfl
  · have hfirst := hsegment x (Engine.execute id)
    split <;> rename_i h <;> rw [h] at hfirst
    · exact (hfinish _ _ _ _ _ _).trans hfirst
    · exact hfirst

variable [Carrier I]

section

variable (sha256 : Wire.Bytes → δ)

theorem clients_handOver (fps : Fingerprints I)
    (x : Session I δ) (ws : List Wait) (o : Outcome I) :
    (x.handOver v sha256 fps ws o).2.clients = x.clients := by
  induction ws generalizing x o with
  | nil => cases o <;> rfl
  | cons w ws ih =>
    cases o with
    | ended r => rfl
    | waits =>
      unfold handOver
      split
      · rfl
      · dsimp only
        rw [ih, clients_withBridge]
        split
        · rfl
        · exact clients_admitted x w

theorem receive_clients (fps : Fingerprints I)
    (x : Session I δ) (i : ReceiveInput I) :
    (x.receive v sha256 fps i).clients.last = x.clients.last ∧
      (x.receive v sha256 fps i).clients.told = x.clients.told := by
  have hwsc : ∀ (y : Session I δ) (j : WscInput),
      (y.receiveWsc v sha256 fps j).clients.last = y.clients.last ∧
        (y.receiveWsc v sha256 fps j).clients.told = y.clients.told := by
    intro y j
    unfold receiveWsc
    split
    · exact ⟨rfl, rfl⟩
    split
    · exact ⟨rfl, rfl⟩
    dsimp only
    have hreceive := clients_withBridge y (.ended (.error .other)) fun u w =>
      Handover.receive u w j.message j.ingress j.generation
    generalize y.withBridge _ _ = out at hreceive ⊢
    have hover := clients_handOver (v := v) sha256 fps out.2 j.waits out.1
    split <;> rename_i z hz <;> rw [hz] at hover
    · rw [show z.clients = y.clients from hover.trans hreceive]
      exact ⟨rfl, rfl⟩
    · rename_i op
      have hexecute := clients_execute (v := v) fps z j op.operationId
      split <;> rename_i z' hz' <;> rw [hz'] at hexecute
      all_goals have hall : z'.clients = y.clients := hexecute.trans (hover.trans hreceive)
      · rw [hall]
        exact ⟨rfl, rfl⟩
      · unfold provisioned
        dsimp only
        split <;> simp [hall]
  have hlook := clients_look (v := v) x i.first
  unfold receive
  split
  · exact ⟨rfl, rfl⟩
  split <;> rename_i y hy <;> rw [hy] at hlook
  · rw [show y.clients = x.clients from hlook]
    exact ⟨rfl, rfl⟩
  rw [← show y.clients = x.clients from hlook]
  split
  · rw [clients_receiveResponse]
    exact ⟨rfl, rfl⟩
  · exact hwsc y _
  · dsimp only
    split <;> simp
  · split <;> exact ⟨rfl, rfl⟩
  · simp

/-! ## Runs -/

/-- Ticks complete, every inventory is complete, and a re-announcement finds every remembered client
still there. -/
def Following (v : Setup) (x : Session I δ) : Step I → Prop
  | .tick i => (x.tick v i).1 ≠ .raised ∧
      ∀ s, i.first.current = some s → s.inventoryComplete = true ∧ x.Stays s
  | .receive _ | .close | .elsewhere _ _ _ => True

theorem step_known (fps : Fingerprints I) {x : Session I δ}
    (hknown : x.Known) {a : Step I} (ha : Following v x a) : (x.step v sha256 fps a).Known := by
  cases a with
  | tick i => exact (tick_follows hknown ha.1 (fun s hs => (ha.2 s hs).1) fun s hs => (ha.2 s hs).2).1
  | receive i =>
    obtain ⟨hlast, htold⟩ := receive_clients (v := v) sha256 fps x i
    intro c
    simp only [step, hlast, htold]
    exact hknown c
  | close => exact hknown
  | elsewhere edits engine journal =>
    intro c
    simp only [step, clients_withBridge]
    exact hknown c

end

/-- After every completed tick of a session past its M1, what the controller was told adds up to the
clients of the tick's snapshot. -/
theorem clients_followed (v : Setup) (sha256 : Wire.Bytes → δ) (fps : Handover.Fingerprints I)
    (steps : List (Step I)) (i : TickInput)
    (h : Meets (step v sha256 fps) (Following v) {} (steps ++ [.tick i])) :
    let x : Session I δ := runs (step v sha256 fps) {} steps
    ∀ s, (x.tick v i).1 = .completed s → (x.tick v i).2.provisioning ≠ none →
      ∀ c, c ∈ followed (x.tick v i).2.clients.told ↔ c ∈ s.clients := by
  rw [meets_append] at h
  have hknown : (runs (step v sha256 fps) {} steps : Session I δ).Known :=
    runs_invariant (P := Known) (fun x a hx ha => step_known sha256 fps hx ha) h.1 fun c => by
      simp [followed]
  exact (tick_follows hknown h.2.1.1 (fun s hs => (h.2.1.2 s hs).1) fun s hs => (h.2.1.2 s hs).2).2

end Receive

/-! ## A session -/

def sampleStamp : Stamp := ⟨"stamp", 0, 2⟩

def sampleCapabilities : Capabilities where
  radios := [⟨[2, 0, 0, 0, 0, 1], 4, [⟨81, 20, []⟩], []⟩]
  device := []

def published (clients : List Client) : Published where
  contextToken := "context"
  generation := 1
  stamp := sampleStamp
  capabilities := sampleCapabilities
  clients := clients

def reads (clients : List Client) : Reading := ⟨true, some (published clients), 1, 1⟩

def sends (clients : List Client) : List Attempt := [⟨⟨reads clients, 1⟩, false, ⟨reads clients, 1⟩⟩]

def sampleTick (clients : List Client) : TickInput where
  first := reads clients
  search := sends clients
  topology := sends clients
  announced _ := sends clients

def sampleResponse : ResponseInput Intent where
  now := 1
  advertisement := some ⟨[], 1, 0⟩
  earlyFrames := [[1], [2]]
  early := [(true, true), (true, true)]
  bridge := some Handover.twoBssBridge
  secrets := ∅
  engine := Handover.twoBssEngine
  journal := {}
  again := reads []
  turn := Handover.twoBssTurn
  looks := [reads [], reads [], reads []]

/-- The M2 set; the backend has no plan for its operation, which is rejected. -/
def sampleM2 : WscInput where
  message := Wsc.WscExchange.m2Message 1 [[1, 1], [2, 2]]
  ingress := "eth0"
  generation := 1
  waits := List.replicate 3 ⟨Handover.twoBssTurn, reads []⟩
  turn := Handover.twoBssTurn
  guards := [⟨Handover.twoBssTurn, reads []⟩]
  replies := ⟨.ok (), .error (Handover.notReady "no plan"), .error .other, .error .other,
    ⟨"attempt", "transaction"⟩⟩

def frame (f : Frame Intent) : Step Intent := .receive { first := reads [], frame := f }

def sampleSetup : Setup := { messageSet := .easymesh61 }

/-- The session up to a controller that knows two clients and has asked for the topology. -/
def sampleSteps (clients : List Client) : List (Step Intent) :=
  [.tick (sampleTick []), frame (.response sampleResponse), frame (.wsc sampleM2),
    .tick (sampleTick clients), frame (.topologyQuery true)]

def sampleStep : Session Intent (List UInt8) → Step Intent → Session Intent (List UInt8) :=
  step sampleSetup id Handover.lengthFingerprints

def clientA : Client := ([2, 0, 0, 0, 0, 9], [2, 0, 0, 0, 0, 10])

def clientB : Client := ([2, 0, 0, 0, 0, 9], [2, 0, 0, 0, 0, 11])

/-- A second client comes with the re-announcement. -/
theorem clients_followed_joining :
    let x := runs sampleStep {} (sampleSteps [clientA])
    (x.tick sampleSetup (sampleTick [clientA, clientB])).2.clients.told =
      [(true, clientA), (true, clientA), (true, clientB)] ∧
    ∀ c, c ∈ followed (x.tick sampleSetup (sampleTick [clientA, clientB])).2.clients.told ↔
      c ∈ [clientA, clientB] := by
  -- a tick of the sample that completes, with its snapshot's inventory
  have htick : ∀ {x : Session Intent (List UInt8)} {clients : List Client},
      ((x.tick sampleSetup (sampleTick clients)).1 ≠ .raised ∧
        (x.clients.reannounce.due x.clients.responses = true →
          ∀ c ∈ x.clients.last, c ∈ clients)) →
      Following sampleSetup x (.tick (sampleTick clients)) := by
    rintro x clients ⟨hcompletes, hstays⟩
    refine ⟨hcompletes, ?_⟩
    rintro s ⟨rfl⟩
    exact ⟨rfl, hstays⟩
  intro x
  have hlast : (x.tick sampleSetup (sampleTick [clientA, clientB])).1 =
        .completed (published [clientA, clientB]) ∧
      (x.tick sampleSetup (sampleTick [clientA, clientB])).2.provisioning.isSome = true ∧
      (∀ c ∈ x.clients.last, c ∈ [clientA, clientB]) ∧
      (x.tick sampleSetup (sampleTick [clientA, clientB])).2.clients.told =
        [(true, clientA), (true, clientA), (true, clientB)] := by
    decide +kernel
  refine ⟨hlast.2.2.2, ?_⟩
  exact clients_followed sampleSetup id lengthFingerprints (sampleSteps [clientA])
    (sampleTick [clientA, clientB])
    ⟨htick (by decide +kernel), trivial, trivial, htick (by decide +kernel), trivial,
      htick ⟨fun hr => (nomatch hlast.1.symm.trans hr), fun _ => hlast.2.2.1⟩,
      trivial⟩
    (published [clientA, clientB]) hlast.1 (Option.isSome_iff_ne_none.mp hlast.2.1)

/-- A client that leaves between the tick before the re-announcement and the one that makes it. -/
theorem departed_unreported :
    let x := (runs sampleStep {} (sampleSteps [clientA, clientB])).tick sampleSetup
      (sampleTick [clientA])
    x.1 = .completed (published [clientA]) ∧ x.2.provisioning.isSome = true ∧
      clientB ∈ followed x.2.clients.told ∧ clientB ∉ (published [clientA]).clients := by
  decide +kernel

end Session
end Emosa.Onboarding
