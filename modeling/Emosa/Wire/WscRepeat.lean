import Emosa.Wire.WscExchange

/-!
# Emosa.Wire.WscRepeat

What a `WscExchange` answers to an M2 set after the one it accepted.

* `Inv`: what was accepted, against the results so far. The digest is that of the last of them, which
  decodes to the accepted configuration like the first.
* `Repeats`: the set again gets the result again, anything else is refused, and what was accepted
  stays. `repeats_iff`: when it holds. A set that is repeated byte for byte is answered without the
  further BSSes, one that is encrypted anew with them.
-/

namespace Emosa.Wsc

open List Option
namespace WscExchange

open Wire (Bytes Message)

variable {δ : Type} {u : WscSetup} {x : WscExchange δ}

/-- The set decodes to what was accepted. -/
def DecodesTo (u : WscSetup) (a : Accepted δ) (messages : List Bytes) : Prop :=
  u.decoded messages = .ok (a.configuration, a.candidate, a.additional)

section

variable {d : RadioPayloadSet × ExistingBssCandidate × Additional}

theorem decoded_ok {messages : List Bytes}
    (h : u.decoded messages = .ok d) : u.mapped d.1 = .ok d.2 := by
  obtain ⟨radio, -, hrest⟩ := Except.bind_ok h
  obtain ⟨candidates, hmapped, hret⟩ := Except.bind_ok hrest
  obtain rfl := Except.ok.inj hret
  exact hmapped

theorem DecodesTo.of_configuration {a : Accepted δ} {messages messages' : List Bytes}
    (h : DecodesTo u a messages)
    (hd : u.decoded messages' = .ok d) (heq : d.1 = a.configuration) : DecodesTo u a messages' := by
  have hmapped := decoded_ok h
  have hmapped' := decoded_ok hd
  rw [heq] at hmapped'
  have hpair : d.2 = (a.candidate, a.additional) :=
    Except.ok.inj (hmapped'.symm.trans hmapped)
  unfold DecodesTo
  rw [hd, ← heq, ← hpair]

end

theorem checks_ok {message : Message} {ingress : String} {generation : Nat} {v : Unit}
    (h : x.checks u message ingress generation = .ok v) : x.transmissions ≠ 0 := by
  obtain ⟨_, -, hrest⟩ := Except.bind_ok h
  intro hzero
  rw [if_pos hzero] at hrest
  cases hrest

/-- The exchange against the results so far. -/
def Inv (sha256 : Bytes → δ) (u : WscSetup) (x : WscExchange δ)
    (rs : List (List Bytes × ExchangeResult)) : Prop :=
  match x.phase with
  | .waiting => rs = []
  | .received a => x.transmissions ≠ 0 ∧
      (∃ first, rs.head? = some (first, ⟨false, u.ruid, a.candidate, a.additional⟩) ∧
        DecodesTo u a first) ∧
      ∃ last, rs.getLast? = some last ∧ a.digest = digestOf sha256 last.1 ∧ DecodesTo u a last.1
  | .closed => True

variable {sha256 : Bytes → δ} {rs : List (List Bytes × ExchangeResult)}

theorem inv_close (x : WscExchange δ) : Inv sha256 u x.close rs := trivial

theorem Inv.live (h : Inv sha256 u x rs) (now : ℚ) : Inv sha256 u (x.live u now) rs := by
  unfold WscExchange.live
  split
  · exact inv_close x
  · exact h

theorem Inv.failed (h : Inv sha256 u x rs) : Inv sha256 u x.failed rs := by
  unfold WscExchange.failed
  split
  · exact inv_close x
  · exact h
  · exact h

theorem Inv.receiveFirst (hphase : x.phase = .waiting) (h : Inv sha256 u x rs)
    (hsent : x.transmissions ≠ 0) (messages : List Bytes) :
    (∃ e, x.receiveFirst sha256 u messages = (.error e, x.close)) ∨
      ∃ r, (x.receiveFirst sha256 u messages).1 = .ok r ∧
        Inv sha256 u (x.receiveFirst sha256 u messages).2 (rs ++ [(messages, r)]) := by
  unfold WscExchange.receiveFirst
  cases hd : u.decoded messages with
  | error e => exact .inl ⟨e, rfl⟩
  | ok d =>
    refine .inr ⟨_, rfl, ?_⟩
    simp only [Inv, hphase] at h
    subst h
    exact ⟨hsent, ⟨messages, rfl, hd⟩, _, rfl, rfl, hd⟩

theorem Inv.request (h : Inv sha256 u x rs) (now : ℚ) : Inv sha256 u (x.request u now).2 rs := by
  have hi := h.live now
  unfold WscExchange.request
  simp only
  split
  · exact hi
  · exact hi
  · rename_i hphase
    split
    · exact hi
    · simp only [Inv, hphase] at hi ⊢
      exact hi

section Calls

variable [DecidableEq δ]

theorem Inv.receiveAgain {a : Accepted δ} (hphase : x.phase = .received a) (h : Inv sha256 u x rs)
    {messages : List Bytes}
    (hapart : ∀ r ∈ rs, digestOf sha256 messages = digestOf sha256 r.1 → messages = r.1) :
    (∃ e, x.receiveAgain sha256 u a messages = (.error e, x)) ∨
      ∃ r, (x.receiveAgain sha256 u a messages).1 = .ok r ∧
        Inv sha256 u (x.receiveAgain sha256 u a messages).2 (rs ++ [(messages, r)]) := by
  have hi := h
  simp only [Inv, hphase] at hi
  obtain ⟨hsent, ⟨first, hfirst, hof⟩, last, hlast, hdigest, hdecodes⟩ := hi
  -- The results go on after the first one.
  have hhead : ∀ r, (rs ++ [(messages, r)]).head? =
      some (first, ⟨false, u.ruid, a.candidate, a.additional⟩) := by
    intro r
    rw [head?_append, hfirst, some_or]
  unfold WscExchange.receiveAgain
  simp only
  split
  · rename_i heq
    refine .inr ⟨_, rfl, ?_⟩
    have hagain : messages = last.1 := hapart last (mem_of_getLast? hlast) (heq.trans hdigest)
    simp only [Inv, hphase]
    exact ⟨hsent, ⟨first, hhead _, hof⟩, _, getLast?_concat, heq.symm, hagain ▸ hdecodes⟩
  · cases hd : u.decoded messages with
    | error e => exact .inl ⟨e, rfl⟩
    | ok d =>
      simp only
      split
      · exact .inl ⟨_, rfl⟩
      · rename_i hsame
        refine .inr ⟨_, rfl, ?_⟩
        exact ⟨hsent, ⟨first, hhead _, hof⟩, _, getLast?_concat, rfl,
          hof.of_configuration hd (not_not.mp hsame)⟩

/-- What a message does to the results. -/
def Extends (sha256 : Bytes → δ) (u : WscSetup) (rs : List (List Bytes × ExchangeResult))
    (messages : List Bytes) (out : Answer × WscExchange δ) : Prop :=
  (∃ e, out.1 = .error e) ∧ Inv sha256 u out.2 rs ∨
    ∃ r, out.1 = .ok r ∧ Inv sha256 u out.2 (rs ++ [(messages, r)])

theorem Inv.receiveSet (h : Inv sha256 u x rs) (hsent : x.transmissions ≠ 0) {messages : List Bytes}
    (hapart : ∀ r ∈ rs, digestOf sha256 messages = digestOf sha256 r.1 → messages = r.1) :
    Extends sha256 u rs messages (x.receiveSet sha256 u messages) := by
  unfold WscExchange.receiveSet
  cases hphase : x.phase with
  | waiting =>
    rcases h.receiveFirst hphase hsent messages with ⟨e, he⟩ | hok
    · simp only [he]
      exact .inl ⟨⟨e, rfl⟩, inv_close x⟩
    · exact .inr hok
  | received a =>
    rcases h.receiveAgain hphase hapart with ⟨e, he⟩ | hok
    · simp only [he]
      exact .inl ⟨⟨e, rfl⟩, h⟩
    · exact .inr hok
  | closed => exact .inl ⟨⟨_, rfl⟩, h⟩

theorem Inv.receive (h : Inv sha256 u x rs) (now : ℚ) {message : Message} (ingress : String)
    (generation : Nat)
    (hapart : ∀ r ∈ rs, digestOf sha256 (payloads message) = digestOf sha256 r.1 →
      payloads message = r.1) :
    Extends sha256 u rs (payloads message) (x.receive sha256 u now message ingress generation) := by
  have hlive : Extends sha256 u rs (payloads message)
      ((x.live u now).receiveLive sha256 u message ingress generation) := by
    unfold WscExchange.receiveLive
    cases hchecks : (x.live u now).checks u message ingress generation with
    | error e => exact .inl ⟨⟨e, rfl⟩, h.live now⟩
    | ok v =>
      cases u.scope message with
      | error e => exact .inl ⟨⟨e, rfl⟩, (h.live now).failed⟩
      | ok v => exact (h.live now).receiveSet (checks_ok hchecks) hapart
  unfold WscExchange.receive
  simp only
  split
  · exact .inl ⟨⟨_, rfl⟩, h.live now⟩
  · exact hlive
  · exact hlive

/-- The sets of some calls digest apart. -/
def Apart (sha256 : Bytes → δ) (sets : List (List Bytes)) : Prop :=
  ∀ m ∈ sets, ∀ m' ∈ sets, digestOf sha256 m = digestOf sha256 m' → m = m'

theorem Inv.call (h : Inv sha256 u x rs) {c : Call}
    (hapart : Apart sha256 (rs.map Prod.fst ++ (setOf c).toList)) :
    Inv sha256 u (x.call sha256 u c).2
      (rs ++ (resultOf ⟨c, (x.call sha256 u c).1⟩).toList) := by
  cases c with
  | request now => simpa [resultOf, WscExchange.call] using h.request now
  | receive now message ingress generation =>
    have hof : ∀ r ∈ rs, digestOf sha256 (payloads message) = digestOf sha256 r.1 →
        payloads message = r.1 := by
      intro r hr
      exact hapart _ (by simp [setOf]) _ (mem_append_left _ (mem_map_of_mem hr))
    simp only [WscExchange.call]
    rcases h.receive now ingress generation hof with ⟨⟨e, he⟩, hi⟩ | ⟨r, hr, hi⟩
    · simpa [resultOf, he] using hi
    · simpa [resultOf, setOf, hr] using hi
  | close => simpa [WscExchange.call] using inv_close x

theorem setOf_result {e : Entry} {r : List Bytes × ExchangeResult} (h : resultOf e = some r) :
    setOf e.call = some r.1 := by
  unfold resultOf at h
  split at h
  · rename_i hset _
    obtain rfl := some.inj h
    exact hset
  · cases h

theorem results_sets {cs : List Call} {r : List Bytes × ExchangeResult}
    (h : r ∈ results (Dialogue.trace (WscExchange.call sha256 u) x cs)) :
    r.1 ∈ cs.filterMap setOf := by
  obtain ⟨e, he, hr⟩ := mem_filterMap.mp h
  refine mem_filterMap.mpr ⟨e.call, ?_, setOf_result hr⟩
  exact Dialogue.call_mem he

theorem Inv.after (h : Inv sha256 u x rs) (cs : List Call)
    (hapart : Apart sha256 (rs.map Prod.fst ++ cs.filterMap setOf)) :
    Inv sha256 u (Dialogue.after (WscExchange.call sha256 u) x cs)
      (rs ++ results (Dialogue.trace (WscExchange.call sha256 u) x cs)) := by
  induction cs generalizing x rs with
  | nil => simpa [results] using h
  | cons c cs ih =>
    have hset : (c :: cs).filterMap setOf = (setOf c).toList ++ cs.filterMap setOf := by
      cases hc : setOf c <;> simp [hc]
    have hresult : results (Dialogue.trace (WscExchange.call sha256 u) x (c :: cs)) =
        (resultOf ⟨c, (x.call sha256 u c).1⟩).toList ++
          results (Dialogue.trace (WscExchange.call sha256 u) (x.call sha256 u c).2 cs) := by
      cases hr : resultOf ⟨c, (x.call sha256 u c).1⟩ <;> simp [results, hr]
    have hfrom : ∀ m ∈ ((resultOf ⟨c, (x.call sha256 u c).1⟩).toList).map Prod.fst,
        m ∈ (setOf c).toList := by
      intro m hm
      obtain ⟨r, hr, rfl⟩ := mem_map.mp hm
      simpa using setOf_result (mem_toList.mp hr)
    have hstep := h.call (c := c) fun m hm m' hm' => hapart m (by grind) m' (by grind)
    rw [hresult, ← append_assoc]
    refine ih hstep fun m hm m' hm' => hapart m ?_ m' ?_
    all_goals
      grind

/-! ## A set after the accepted one -/

/-- The message is one the exchange takes an M2 set from. -/
def WellFormed (u : WscSetup) (message : Message) (ingress : String) (generation : Nat) : Prop :=
  u.addressed message ingress generation = .ok () ∧ u.named message = .ok () ∧
    u.scope message = .ok ()

/-- It carries the accepted set again, or another encryption of it. -/
def CarriesAgain (u : WscSetup) (first : List Bytes × ExchangeResult) (message : Message)
    (ingress : String) (generation : Nat) : Prop :=
  WellFormed u message ingress generation ∧
    (payloads message = first.1 ∨ u.decoded (payloads message) = u.decoded first.1)

/-- What is asked of a message after the first result. -/
structure Repeats (sha256 : Bytes → δ) (u : WscSetup) (x : WscExchange δ)
    (first : List Bytes × ExchangeResult) (now : ℚ) (message : Message) (ingress : String)
    (generation : Nat) : Prop where
  again : CarriesAgain u first message ingress generation →
    (x.receive sha256 u now message ingress generation).1 =
      .ok ⟨true, u.ruid, first.2.candidate, first.2.additional⟩
  other : ¬ CarriesAgain u first message ingress generation →
    ∃ e, (x.receive sha256 u now message ingress generation).1 = .error e
  kept : ∃ a, (x.receive sha256 u now message ingress generation).2.phase = .received a ∧
    a.candidate = first.2.candidate ∧ a.additional = first.2.additional ∧
    u.decoded first.1 = .ok (a.configuration, a.candidate, a.additional)

theorem receive_received (sha256 : Bytes → δ) {a : Accepted δ} (hphase : x.phase = .received a)
    (hsent : x.transmissions ≠ 0) {now : ℚ} (hnow : now < u.deadline) (message : Message)
    (ingress : String) (generation : Nat) :
    (¬ WellFormed u message ingress generation ∧
      ∃ e, x.receive sha256 u now message ingress generation = (.error e, x)) ∨
    WellFormed u message ingress generation ∧
      x.receive sha256 u now message ingress generation =
        x.receiveAgain sha256 u a (payloads message) := by
  have hlive : x.live u now = x := if_neg (not_le.mpr hnow)
  have hreceive : x.receive sha256 u now message ingress generation =
      x.receiveLive sha256 u message ingress generation := by
    unfold WscExchange.receive
    simp only [hlive, hphase]
  have hfailed : x.failed = x := by
    unfold WscExchange.failed
    rw [hphase]
  rw [hreceive]
  unfold WscExchange.receiveLive WellFormed WscExchange.checks
  cases haddressed : u.addressed message ingress generation with
  | error e => exact .inl ⟨by simp, e, rfl⟩
  | ok v =>
    simp only [if_neg hsent]
    cases hnamed : u.named message with
    | error e => exact .inl ⟨by simp, e, rfl⟩
    | ok v =>
      cases hscope : u.scope message with
      | error e => exact .inl ⟨by simp, e, by rw [hfailed]; rfl⟩
      | ok v =>
        refine .inr ⟨by simp, ?_⟩
        simp only [WscExchange.receiveSet, hphase]
        rfl

theorem receiveAgain_cases (sha256 : Bytes → δ) (x : WscExchange δ) (messages : List Bytes)
    {a : Accepted δ} {first : List Bytes} (hof : DecodesTo u a first) :
    (digestOf sha256 messages = a.digest ∧ x.receiveAgain sha256 u a messages =
      (.ok ⟨true, u.ruid, a.candidate, []⟩, x)) ∨
    (digestOf sha256 messages ≠ a.digest ∧ ¬ DecodesTo u a messages ∧
      ∃ e, x.receiveAgain sha256 u a messages = (.error e, x)) ∨
    digestOf sha256 messages ≠ a.digest ∧ DecodesTo u a messages ∧
      x.receiveAgain sha256 u a messages = (.ok ⟨true, u.ruid, a.candidate, a.additional⟩,
        { x with phase := .received { a with digest := digestOf sha256 messages } }) := by
  unfold WscExchange.receiveAgain
  simp only
  split
  · rename_i heq
    exact .inl ⟨heq, rfl⟩
  · rename_i hne
    cases hd : u.decoded messages with
    | error e =>
      refine .inr (.inl ⟨hne, ?_, e, rfl⟩)
      simp [DecodesTo, hd]
    | ok d =>
      simp only
      split
      · rename_i hconflict
        refine .inr (.inl ⟨hne, fun hto => ?_, _, rfl⟩)
        rw [DecodesTo, hd] at hto
        exact hconflict (congrArg Prod.fst (Except.ok.inj hto))
      · rename_i hsame
        exact .inr (.inr ⟨hne, hof.of_configuration hd (not_not.mp hsame), rfl⟩)

/-- After the first result every message is answered as it should, unless the accepted set has
further BSSes and the message repeats, byte for byte, the set of the last result. -/
theorem repeats_iff (sha256 : Bytes → δ) (u : WscSetup) (cs : List Call) (now : ℚ)
    (message : Message) (ingress : String) (generation : Nat) (first : List Bytes × ExchangeResult)
    (hfirst : (results (log sha256 u cs)).head? = some first)
    (hopen : (afterCalls sha256 u cs).phase ≠ .closed) (hnow : now < u.deadline)
    (hapart : Apart sha256 ((cs ++ [Call.receive now message ingress generation]).filterMap setOf)) :
    Repeats sha256 u (afterCalls sha256 u cs) first now message ingress generation ↔
      first.2.additional = [] ∨ ¬ (WellFormed u message ingress generation ∧
        ∃ r, (results (log sha256 u cs)).getLast? = some (payloads message, r)) := by
  have hinv : Inv sha256 u (afterCalls sha256 u cs) (results (log sha256 u cs)) := by
    have hstart : Inv sha256 u ({} : WscExchange δ) [] := rfl
    refine hstart.after cs fun m hm m' hm' => hapart m ?_ m' ?_
    all_goals
      simp only [filterMap_append, mem_append] at *
      tauto
  -- The sets of the results are sets of calls.
  have hsets : ∀ r ∈ results (log sha256 u cs), digestOf sha256 (payloads message) =
      digestOf sha256 r.1 → payloads message = r.1 := by
    intro r hr
    refine hapart _ (by simp [setOf]) _ ?_
    rw [filterMap_append]
    exact mem_append_left _ (results_sets hr)
  generalize afterCalls sha256 u cs = x at hinv hopen ⊢
  generalize results (log sha256 u cs) = rs at hfirst hinv hsets ⊢
  cases hphase : x.phase with
  | waiting =>
    simp only [Inv, hphase] at hinv
    rw [hinv] at hfirst
    cases hfirst
  | closed => exact absurd hphase hopen
  | received a =>
    simp only [Inv, hphase] at hinv
    obtain ⟨hsent, ⟨set, hhead, hof⟩, last, hlast, hdigest, hdecodes⟩ := hinv
    obtain rfl : first = (set, ⟨false, u.ruid, a.candidate, a.additional⟩) :=
      some.inj (hfirst.symm.trans hhead)
    have hlastset : (∃ r, rs.getLast? = some (payloads message, r)) ↔
        digestOf sha256 (payloads message) = a.digest := by
      constructor
      · rintro ⟨r, hr⟩
        obtain rfl := some.inj (hr.symm.trans hlast)
        exact hdigest.symm
      · intro heq
        have hsame := hsets last (mem_of_getLast? hlast) (heq.trans hdigest)
        exact ⟨last.2, by rw [hlast, hsame]⟩
    -- A set carries the accepted one again when it decodes to it.
    have hcarries : WellFormed u message ingress generation →
        (CarriesAgain u (set, ⟨false, u.ruid, a.candidate, a.additional⟩) message ingress generation ↔
          DecodesTo u a (payloads message)) := by
      intro hwf
      unfold DecodesTo at hof ⊢
      rw [← hof]
      refine ⟨fun h => ?_, fun h => ⟨hwf, .inr h⟩⟩
      rcases h.2 with heq | heq
      · rw [heq]
      · exact heq
    rw [hlastset]
    rcases receive_received sha256 hphase hsent hnow message ingress generation with
      ⟨hwf, e, hout⟩ | ⟨hwf, hout⟩
    · refine ⟨fun _ => .inr fun h => hwf h.1, fun _ => ⟨fun h => absurd h.1 hwf, fun _ => ?_, ?_⟩⟩
      · exact ⟨e, by rw [hout]⟩
      · exact ⟨a, by rw [hout]; exact hphase, rfl, rfl, hof⟩
    · rcases receiveAgain_cases sha256 x (payloads message) hof with
        ⟨heq, hans⟩ | ⟨hne, hnot, e, hans⟩ | ⟨hne, hto, hans⟩
      all_goals rw [hans] at hout
      · -- Byte for byte: the candidate alone.
        have hto : DecodesTo u a (payloads message) := by
          rwa [hsets last (mem_of_getLast? hlast) (heq.trans hdigest)]
        have hcarried := (hcarries hwf).mpr hto
        constructor
        · intro h
          have hagain := h.again hcarried
          rw [hout] at hagain
          left
          simpa using hagain
        · rintro (hnone | hno)
          · refine ⟨fun _ => ?_, fun hnot => absurd hcarried hnot, ?_⟩
            · rw [hout]
              simp_all
            · exact ⟨a, by rw [hout]; exact hphase, rfl, rfl, hof⟩
          · exact absurd ⟨hwf, heq⟩ hno
      · have hother := mt (hcarries hwf).mp hnot
        refine ⟨fun _ => .inr fun h => hne h.2, fun _ => ⟨fun h => absurd h hother, fun _ => ?_, ?_⟩⟩
        · exact ⟨e, by rw [hout]⟩
        · exact ⟨a, by rw [hout]; exact hphase, rfl, rfl, hof⟩
      · have hcarried := (hcarries hwf).mpr hto
        refine ⟨fun _ => .inr fun h => hne h.2, fun _ => ⟨fun _ => ?_, fun h => absurd hcarried h, ?_⟩⟩
        · rw [hout]
        · exact ⟨{ a with digest := digestOf sha256 (payloads message) }, by rw [hout], rfl, rfl, hof⟩

end Calls

/-! ## A set of two BSSes -/

def bssSettings (ssid : String) (flags : UInt8) : List Attribute :=
  [⟨0x1045, ssid.toList.map fun c => UInt8.ofNat c.toNat⟩, ⟨0x1003, [0, 0x20]⟩, ⟨0x100F, [0, 0x08]⟩,
    ⟨0x1027, "passphrase".toList.map fun c => UInt8.ofNat c.toNat⟩, ⟨0x1020, [2, 0, 0, 0, 1, 0]⟩,
    ⟨vendorExtension, wfaId ++ [0x06, 1, flags]⟩]

/-- A registrar whose messages are the BSS they are for and their nonce. -/
def twoBssTranscript : M1Transcript where
  authenticate
    | [1, nonce] => .ok ⟨[nonce], none, bssSettings "home" 0x20, []⟩
    | [2, nonce] => .ok ⟨[nonce], none, bssSettings "mesh" 0x40, []⟩
    | _ => invalidMessage
  authenticationTypes := 0x20
  encryptionTypes := 0x08

def twoBssSetup : WscSetup where
  binding := ⟨"eth0", 1, [2, 0, 0, 0, 0, 1], [2, 0, 0, 0, 0, 2], [[2, 0, 0, 0, 0, 2]]⟩
  ruid := [2, 0, 0, 0, 0, 9]
  maxBss := 4
  multiBss := true
  sharedM2Session := false
  transcript := twoBssTranscript
  deadline := 5
  maxTransmissions := 3

def m2Message (mid : Nat) (sets : List Bytes) : Message where
  destination := [2, 0, 0, 0, 0, 1]
  source := [2, 0, 0, 0, 0, 2]
  messageType := wscType
  mid := mid
  relay := false
  tlvs := ⟨0x82, [2, 0, 0, 0, 0, 9]⟩ :: sets.map fun value => ⟨0x11, value⟩
  fragments := 1

def twoBssCalls : List Call :=
  [.request 0, .receive 1 (m2Message 1 [[1, 1], [2, 2]]) "eth0" 1]

def twoBssFirst : List Bytes × ExchangeResult :=
  ([[1, 1], [2, 2]], ⟨false, [2, 0, 0, 0, 0, 9], ⟨"home", "passphrase", none⟩,
    [(.backhaul, ⟨"mesh", "passphrase", none⟩)]⟩)

/-- The same message again is answered without the backhaul BSS. -/
theorem repeat_drops_backhaul :
    (results (log id twoBssSetup twoBssCalls)).head? = some twoBssFirst ∧
      ¬ Repeats id twoBssSetup (afterCalls id twoBssSetup twoBssCalls) twoBssFirst 2
        (m2Message 2 [[1, 1], [2, 2]]) "eth0" 1 := by
  refine ⟨by decide +kernel, fun h => ?_⟩
  have hwf : WellFormed twoBssSetup (m2Message 2 [[1, 1], [2, 2]]) "eth0" 1 := by
    unfold WellFormed
    decide +kernel
  have hagain := h.again ⟨hwf, .inl rfl⟩
  revert hagain
  decide +kernel

/-- Encrypted anew, it is answered with it. -/
theorem repeat_encrypted_anew :
    Repeats id twoBssSetup (afterCalls id twoBssSetup twoBssCalls) twoBssFirst 2
      (m2Message 2 [[1, 3], [2, 4]]) "eth0" 1 := by
  refine (repeats_iff id twoBssSetup twoBssCalls 2 (m2Message 2 [[1, 3], [2, 4]]) "eth0" 1 twoBssFirst
    (by decide +kernel) (by decide +kernel) (by decide +kernel) ?_).mpr (.inr fun h => ?_)
  · unfold Apart
    decide +kernel
  · obtain ⟨-, r, hr⟩ := h
    have hlast : (results (log id twoBssSetup twoBssCalls)).getLast?.map Prod.fst =
        some [[1, 1], [2, 2]] := by decide +kernel
    rw [hr] at hlast
    have hsets : payloads (m2Message 2 [[1, 3], [2, 4]]) = [[1, 1], [2, 2]] := some.inj hlast
    revert hsets
    decide

end WscExchange
end Emosa.Wsc
