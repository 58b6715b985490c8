import Mathlib.Data.List.FinRange
import Emosa.Wire.Cmdu

/-!
# Emosa.C.Forward

The forwarder of a fleet on a gateway: a poll loop that splices each accepted connection to its port
on loopback. A slot holds a pair of sockets, with one buffer for each direction.

A run is the list of its rounds. A step makes each call at most once, so a round carries the answers
of all its calls, and any answer may come. `Pair.calls` keeps what was done on the pair's sockets, the
newest first; a moment of the pair is a suffix of it. A closed pair stays in its slot until another
takes it, so that the runs show every pair with all its calls. What `serve` closes after its
loop ended is not in them.

* `step`: what a slot does with its events. `loop`: the rounds of `serve`.
* `Live`: what every call on an open pair keeps.
-/

namespace Emosa.C.Forward

open Wire (Bytes)

inductive Side where
  | client
  | upstream
  deriving DecidableEq

def Side.other : Side → Side
  | client => upstream
  | upstream => client

inductive Event where
  | read (s : Side) (b : Bytes)
  | ended (s : Side)
  | wrote (s : Side) (b : Bytes)
  /-- `shutdown`, and whether it succeeded. -/
  | passed (s : Side) (ok : Bool)
  | failed (s : Side)
  | closed
  deriving DecidableEq

inductive Reply (α : Type) where
  | ok (a : α)
  /-- `EAGAIN`, `EWOULDBLOCK` or `EINTR`. -/
  | again
  | failed

structure Answers where
  /-- `getsockopt` fails or gives an error. -/
  error : Bool := false
  recv : Side → Reply { b : Bytes // b.length ≤ 8192 } := fun _ => .again
  send : Side → (out : Bytes) → Reply (Fin (out.length + 1)) := fun _ _ => .again
  shutdown : Side → Bool := fun _ => true

structure Flow where
  data : Bytes := []
  len : Nat := 0
  off : Nat := 0
  eof : Bool := false
  shut : Bool := false

/-- What was read and is not yet written. -/
def Flow.pending (f : Flow) : Bytes := (f.data.take f.len).drop f.off

/-- `n` octets are written. -/
def Flow.advance (f : Flow) (n : Nat) : Flow :=
  let all := f.off + n = f.len
  { f with len := if all then 0 else f.len, off := if all then 0 else f.off + n }

/-- The slot of a pair. `flows s` holds what is read from `s`: `up` for the client, `down` for upstream. -/
structure Pair where
  isOpen : Bool
  connecting : Bool
  flows : Side → Flow := fun _ => {}
  calls : List Event := []

structure Revents where
  pollin : Bool := false
  pollout : Bool := false
  /-- `POLLERR` or `POLLHUP`. They come unasked. -/
  pollhup : Bool := false

def Revents.any (e : Revents) : Bool := e.pollin || e.pollout || e.pollhup

def Revents.asked (e : Revents) (pollin pollout : Bool) : Revents :=
  { e with pollin := e.pollin && pollin, pollout := e.pollout && pollout }

namespace Pair

def call (p : Pair) (s : Side) (f : Flow) (e : Event) : Pair :=
  { p with flows := Function.update p.flows s f, calls := e :: p.calls }

def fail (p : Pair) (s : Side) : Pair := { p with calls := .failed s :: p.calls }

def close (p : Pair) : Pair := { p with isOpen := false, calls := .closed :: p.calls }

def fill (a : Answers) (s : Side) (p : Pair) : Except Pair Pair :=
  let f := p.flows s
  if f.eof || f.len != 0 then .ok p
  else
    match a.recv s with
    | .ok ⟨[], _⟩ => .ok (p.call s { f with eof := true } (.ended s))
    | .ok ⟨b, _⟩ => .ok (p.call s { f with data := b, len := b.length, off := 0 } (.read s b))
    | .again => .ok p
    | .failed => .error (p.fail s)

/-- The end of `drain`, to the side other than `s`. -/
def passEnd (a : Answers) (s : Side) (p : Pair) : Pair :=
  let f := p.flows s
  if f.eof && f.len == 0 && !f.shut then
    p.call s { f with shut := true } (.passed s.other (a.shutdown s.other))
  else p

/-- What was read from `s` is written to the other side. -/
def drain (a : Answers) (s : Side) (p : Pair) : Except Pair Pair :=
  let f := p.flows s
  if f.off < f.len then
    match a.send s.other f.pending with
    | .ok n => .ok ((p.call s (f.advance n) (.wrote s.other (f.pending.take n))).passEnd a s)
    | .again => .ok p
    | .failed => .error (p.fail s.other)
  else .ok (p.passEnd a s)

def fillOn (a : Answers) (e : Revents) (s : Side) (p : Pair) : Except Pair Pair :=
  if e.pollin || e.pollhup then p.fill a s else .ok p

/-- The end of `step`. -/
def transfer (a : Answers) (c u : Revents) (p : Pair) : Pair :=
  match p.fillOn a c .client >>= fillOn a u .upstream >>= drain a .client >>= drain a .upstream with
  | .ok p => if (p.flows .client).shut && (p.flows .upstream).shut then p.close else p
  | .error p => p.close

def step (a : Answers) (c u : Revents) (p : Pair) : Pair :=
  if p.connecting then
    if u.pollout || u.pollhup then
      if a.error then (p.fail .upstream).close else { p with connecting := false }.transfer a c u
    else p
  else p.transfer a c u

/-- What `poll` says of the pair's sockets. It says nothing of descriptors that are -1. -/
def polled (p : Pair) (c u : Revents) : Revents × Revents :=
  let up := p.flows .client
  let down := p.flows .upstream
  if !p.isOpen then ({}, {})
  else if p.connecting then (c.asked false false, u.asked false true)
  else (c.asked (!up.eof && up.len == 0) (down.len != 0), u.asked (!down.eof && down.len == 0) (up.len != 0))

end Pair

abbrev Slots := Fin 128 → Pair

/-- What `socket` and `connect` answer for an accepted connection. -/
inductive Connect where
  | failed
  | inProgress
  | done

def openPair (w : Slots) (c : Connect) : Slots :=
  match (List.finRange 128).find? fun i => !(w i).isOpen, c with
  | none, _ => w
  | some _, .failed => w
  | some i, .inProgress => Function.update w i { isOpen := true, connecting := true }
  | some i, .done => Function.update w i { isOpen := true, connecting := false }

structure Round where
  accepted : List Connect := []
  revents : Fin 128 → Revents × Revents := fun _ => ({}, {})
  answers : Fin 128 → Answers := fun _ => {}

def round (w : Slots) (r : Round) : Slots := fun i =>
  let (c, u) := (w i).polled (r.revents i).1 (r.revents i).2
  let p := r.accepted.foldl openPair w i
  if p.isOpen && (c.any || u.any) then p.step (r.answers i) c u else p

def loop (rs : List Round) : Slots :=
  rs.foldl round fun _ => { isOpen := false, connecting := false }

def Event.readFrom (s : Side) : Event → Bytes
  | .read t b => if t = s then b else []
  | _ => []

def Event.wroteTo (s : Side) : Event → Bytes
  | .wrote t b => if t = s then b else []
  | _ => []

def got (s : Side) : List Event → Bytes
  | [] => []
  | e :: h => got s h ++ e.readFrom s

def sent (s : Side) : List Event → Bytes
  | [] => []
  | e :: h => sent s h ++ e.wroteTo s

/-- From `s` to the other side. -/
structure Way (s : Side) (m : List Event) : Prop where
  written : sent s.other m <+: got s m
  passed : ∀ ok, .passed s.other ok ∈ m → .ended s ∈ m ∧ sent s.other m = got s m

structure Spliced (m : List Event) : Prop where
  way : ∀ s, Way s m
  closed : .closed ∈ m → (∃ s, .failed s ∈ m ∨ .passed s false ∈ m) ∨
    ∀ s, .passed s.other true ∈ m ∧ .ended s ∈ m ∧ sent s.other m = got s m

structure Flowing (s : Side) (f : Flow) (h : List Event) : Prop where
  octets : got s h = sent s.other h ++ f.pending
  ended : f.eof = true → .ended s ∈ h
  drained : f.shut = true → f.eof = true ∧ f.len = 0
  shut : f.shut = true ↔ ∃ ok, .passed s.other ok ∈ h

structure Live (p : Pair) : Prop where
  flowing : ∀ s, Flowing s (p.flows s) p.calls
  unclosed : .closed ∉ p.calls
  moments : ∀ m, m <:+ p.calls → Spliced m

@[simp] theorem Side.other_inj {s t : Side} : s.other = t.other ↔ s = t := by
  cases s <;> cases t <;> simp [other]

section Call

variable {a : Answers} {s : Side} {f : Flow} {h : List Event} {e : Event} {p : Pair}

theorem Flow.pending_of_len (hf : f.len = 0) : f.pending = [] := by simp [pending, hf]

theorem Flow.pending_advance (f : Flow) (n : Nat) : (f.advance n).pending = f.pending.drop n := by
  by_cases hall : f.off + n = f.len
  · simp [pending, advance, hall]
  · simp [pending, advance, hall]

namespace Flowing

/-- A call that the flow does not see. -/
theorem frame (hf : Flowing s f h) (hr : e.readFrom s = []) (hw : e.wroteTo s.other = [])
    (hp : ∀ ok, .passed s.other ok ≠ e) : Flowing s f (e :: h) where
  octets := by simp [got, sent, hr, hw, hf.octets]
  ended he := .tail _ (hf.ended he)
  drained := hf.drained
  shut := by simp [hp, hf.shut]

theorem delivered (hf : Flowing s f h) (hs : f.shut = true) :
    .ended s ∈ h ∧ sent s.other h = got s h := by
  obtain ⟨he, hlen⟩ := hf.drained hs
  exact ⟨hf.ended he, by rw [hf.octets, f.pending_of_len hlen, List.append_nil]⟩

theorem way (hf : Flowing s f h) : Way s h where
  written := ⟨f.pending, hf.octets.symm⟩
  passed ok hp := hf.delivered (hf.shut.mpr ⟨ok, hp⟩)

theorem done (hf : Flowing s f h) (hs : f.shut = true) (hn : .passed s.other false ∉ h) :
    .passed s.other true ∈ h ∧ .ended s ∈ h ∧ sent s.other h = got s h := by
  obtain ⟨ok, hp⟩ := hf.shut.mp hs
  cases ok with
  | true => exact ⟨hp, hf.delivered hs⟩
  | false => exact absurd hp hn

end Flowing

/-- What a call leaves. -/
def Kept : Except Pair Pair → Prop
  | .ok p => Live p
  | .error p => Live p ∧ ∃ s, .failed s ∈ p.calls

theorem Kept.bind {x : Except Pair Pair} (hx : Kept x) {k : Pair → Except Pair Pair}
    (hk : ∀ p, Live p → Kept (k p)) : Kept (x >>= k) := by
  cases x with
  | ok p => exact hk p hx
  | error p => exact hx

namespace Live

theorem push (hl : Live p) {fs : Side → Flow} (he : .closed ≠ e)
    (hf : ∀ t, Flowing t (fs t) (e :: p.calls)) :
    Live { p with flows := fs, calls := e :: p.calls } := by
  have hc : .closed ∉ e :: p.calls := by simp [he, hl.unclosed]
  refine ⟨hf, hc, fun m hm => ?_⟩
  rcases List.suffix_cons_iff.mp hm with rfl | hm
  · exact ⟨fun t => (hf t).way, fun h => absurd h hc⟩
  · exact hl.moments m hm

/-- A call of the flow read from `s`, which the other does not see. -/
theorem call (hl : Live p) (he : .closed ≠ e) (hf : Flowing s f (e :: p.calls))
    (hr : ∀ t, t ≠ s → e.readFrom t = [] ∧ e.wroteTo t.other = [] ∧ ∀ ok, .passed t.other ok ≠ e) :
    Live (p.call s f e) := by
  refine hl.push he fun t => ?_
  by_cases ht : t = s
  · subst ht
    simpa using hf
  · obtain ⟨hread, hwrote, hpassed⟩ := hr t ht
    simpa [ht] using (hl.flowing t).frame hread hwrote hpassed

theorem fail (hl : Live p) (s : Side) : Live (p.fail s) ∧ ∃ t, .failed t ∈ (p.fail s).calls :=
  ⟨hl.push (by simp) fun t => (hl.flowing t).frame rfl rfl (by simp), s, .head _⟩

theorem close (hl : Live p) (hd : (∃ t, .failed t ∈ p.calls) ∨ ∀ s, (p.flows s).shut = true)
    (m : List Event) (hm : m <:+ p.close.calls) : Spliced m := by
  have hf (s : Side) : Flowing s (p.flows s) p.close.calls := (hl.flowing s).frame rfl rfl (by simp)
  rcases List.suffix_cons_iff.mp hm with rfl | hm
  · refine ⟨fun s => (hf s).way, fun _ => or_iff_not_imp_left.mpr fun hn s => ?_⟩
    obtain ⟨t, ht⟩ | hs := hd
    · exact absurd ⟨t, .inl (.tail _ ht)⟩ hn
    · exact (hf s).done (hs s) fun hp => hn ⟨_, .inr hp⟩
  · exact hl.moments m hm

theorem fill (hl : Live p) : Kept (p.fill a s) := by
  simp only [Pair.fill]
  have hf := hl.flowing s
  split
  · exact hl
  rename_i hidle
  obtain ⟨heof, hlen⟩ : (p.flows s).eof = false ∧ (p.flows s).len = 0 := by simpa using hidle
  split
  · refine hl.call (by simp) ?_ fun t ht => ⟨rfl, rfl, by simp⟩
    exact { hf.frame (e := .ended s) rfl rfl (by simp) with
      ended := fun _ => .head _
      drained := fun _ => ⟨rfl, hlen⟩ }
  · refine hl.call (by simp) ?_ fun t ht => ⟨by simp [Event.readFrom, ht.symm], rfl, by simp⟩
    refine ⟨?_, fun he => .tail _ (hf.ended he), fun hs => ?_, by simp [hf.shut]⟩
    · simp [got, sent, Event.readFrom, Event.wroteTo, Flow.pending, hf.octets, hlen]
    · exact absurd (hf.drained hs).1 (by simp [heof])
  · exact hl
  · exact hl.fail s

theorem fillOn (hl : Live p) (c : Revents) : Kept (p.fillOn a c s) := by
  unfold Pair.fillOn
  split
  · exact hl.fill
  · exact hl

theorem passEnd (hl : Live p) : Live (p.passEnd a s) := by
  simp only [Pair.passEnd]
  have hf := hl.flowing s
  split
  · rename_i hend
    obtain ⟨⟨heof, hlen⟩, -⟩ :
      ((p.flows s).eof = true ∧ (p.flows s).len = 0) ∧ (p.flows s).shut = false := by simpa using hend
    refine hl.call (by simp) ?_ fun t ht => ⟨rfl, rfl, by simp [ht]⟩
    refine ⟨?_, fun he => .tail _ (hf.ended he), fun _ => ⟨heof, hlen⟩, ?_⟩
    · simpa [got, sent, Event.readFrom, Event.wroteTo, Flow.pending] using hf.octets
    · exact ⟨fun _ => ⟨_, .head _⟩, fun _ => rfl⟩
  · exact hl

theorem drain (hl : Live p) : Kept (p.drain a s) := by
  simp only [Pair.drain]
  have hf := hl.flowing s
  split
  · rename_i hoff
    split
    · rename_i n _
      refine passEnd (hl.call (by simp) ?_ fun t ht => ⟨rfl, by simp [Event.wroteTo, ht.symm], by simp⟩)
      refine ⟨?_, fun he => .tail _ (hf.ended he), fun hs => ?_, ?_⟩
      · simp [got, sent, Event.readFrom, Event.wroteTo, Flow.pending_advance, hf.octets]
      · have hlen : (p.flows s).len = 0 := (hf.drained hs).2
        omega
      · simpa [Flow.advance] using hf.shut
    · exact hl
    · exact hl.fail s.other
  · exact hl.passEnd

end Live

end Call

structure Sound (p : Pair) : Prop where
  live : p.isOpen = true → Live p
  moments : ∀ m, m <:+ p.calls → Spliced m

namespace Sound

variable {p : Pair}

theorem of_live (hl : Live p) : Sound p := ⟨fun _ => hl, hl.moments⟩

theorem fresh (isOpen connecting : Bool) : Sound { isOpen, connecting } := by
  have hnil (s : Side) : Flowing s {} [] := ⟨rfl, by simp, by simp, by simp⟩
  refine of_live ⟨hnil, by simp, fun m hm => ?_⟩
  rw [List.suffix_nil.mp hm]
  exact ⟨fun s => (hnil s).way, by simp⟩

theorem transfer (hl : Live p) (a : Answers) (c u : Revents) : Sound (p.transfer a c u) := by
  have hkept : Kept (p.fillOn a c .client >>= Pair.fillOn a u .upstream >>= Pair.drain a .client >>=
      Pair.drain a .upstream) :=
    (((hl.fillOn c).bind fun _ h => h.fillOn u).bind fun _ h => h.drain).bind fun _ h => h.drain
  unfold Pair.transfer
  split
  · rename_i q hq
    rw [hq] at hkept
    split
    · rename_i hshut
      refine ⟨by simp [Pair.close], hkept.close (.inr fun s => ?_)⟩
      obtain ⟨hc, hu⟩ := Bool.and_eq_true_iff.mp hshut
      cases s with
      | client => exact hc
      | upstream => exact hu
    · exact of_live hkept
  · rename_i q hq
    rw [hq] at hkept
    exact ⟨by simp [Pair.close], hkept.1.close (.inl hkept.2)⟩

theorem step (hl : Live p) (a : Answers) (c u : Revents) : Sound (p.step a c u) := by
  unfold Pair.step
  split
  · split
    · split
      · obtain ⟨hl, hfailed⟩ := hl.fail .upstream
        exact ⟨by simp [Pair.close], hl.close (.inl hfailed)⟩
      · exact transfer (p := { p with connecting := false }) ⟨hl.flowing, hl.unclosed, hl.moments⟩ a c u
    · exact of_live hl
  · exact transfer hl a c u

end Sound

def Slots.Sound (w : Slots) : Prop := ∀ i, Forward.Sound (w i)

theorem openPair_sound {w : Slots} (hw : w.Sound) (c : Connect) : (openPair w c).Sound := by
  have hput (i : Fin 128) (connecting : Bool) :
      Slots.Sound (Function.update w i { isOpen := true, connecting }) := by
    intro j
    by_cases hj : j = i
    · simpa [hj] using Sound.fresh true connecting
    · simpa [hj] using hw j
  unfold openPair
  split
  · exact hw
  · exact hw
  · exact hput _ true
  · exact hput _ false

theorem round_sound {w : Slots} (hw : w.Sound) (r : Round) : (round w r).Sound := by
  intro i
  have hopen : Slots.Sound (r.accepted.foldl openPair w) :=
    List.foldlRecOn _ _ hw fun _ h c _ => openPair_sound h c
  unfold round
  dsimp only
  split
  · rename_i h
    exact Sound.step ((hopen i).live (Bool.and_eq_true_iff.mp h).1) _ _ _
  · exact hopen i

theorem loop_sound (rs : List Round) : (loop rs).Sound :=
  List.foldlRecOn _ _ (fun _ => Sound.fresh false false) fun _ h r _ => round_sound h r

theorem loop_spliced (rs : List Round) (i : Fin 128) (m : List Event) (hm : m <:+ (loop rs i).calls) :
    Spliced m :=
  (loop_sound rs i).moments m hm

/-- Three octets, written two at a time, then both ends. -/
def oneClient : List Round :=
  let takes (recv : Side → Reply { b : Bytes // b.length ≤ 8192 }) (_ : Fin 128) : Answers :=
    { recv, send := fun _ out => .ok ⟨min 2 out.length, by omega⟩ }
  [{ accepted := [.done] },
    { revents := fun _ => ({ pollin := true }, {}), answers := takes fun _ => .ok ⟨[1, 2, 3], by simp⟩ },
    { revents := fun _ => ({}, { pollout := true }), answers := takes fun _ => .again },
    { revents := fun _ => ({ pollin := true }, { pollin := true }), answers := takes fun _ => .ok ⟨[], by simp⟩ }]

theorem loop_spliced_one_client :
    (loop oneClient 0).calls = [.closed, .passed .client true, .passed .upstream true, .ended .upstream,
      .ended .client, .wrote .upstream [3], .wrote .upstream [1, 2], .read .client [1, 2, 3]] ∧
    Spliced (loop oneClient 0).calls :=
  ⟨by decide +kernel, loop_spliced oneClient 0 _ List.suffix_rfl⟩

end Emosa.C.Forward
