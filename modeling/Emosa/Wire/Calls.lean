import Emosa.Wire.ReassemblerInv

/-!
# Emosa.Wire.Calls

Calls of a reassembler, one after another, seen from one context.

* `Call.context`: the context a call's frame belongs to.
* `call_frame`: a call for another context leaves a context as expiry leaves it.
* `replyAt`: the reply to one call of a run.
-/

namespace Emosa.Wire

def Call.now : Call → ℚ
  | .feed now _ _ _ => now
  | .expire now => now

/-- The context a call's frame belongs to. -/
def Call.context : Call → Option Key
  | .feed _ _ ingress frame =>
    match receive frame with
    | .ok part => some (part.key ingress)
    | .error _ => none
  | .expire _ => none

theorem receive_octets {part : Fragment} (h : part.WF) : receive part.octets = .ok part := by
  simp [receive, decodeFrame_octets h, bind, Except.bind, h.version]

namespace Reassembler

variable {r : Reassembler} {key : Key}

theorem accept_get?_ne {k : Key} {state : Assembly} {part : Fragment} (h : k ≠ key) :
    (r.accept key state part).1.contexts.get? k = r.contexts.get? k := by
  simp only [accept]
  cases r.judge state part with
  | quarantined => rfl
  | poison reason => exact Dict.get?_set_ne _ _ h
  | duplicate => rfl
  | store tlvs =>
    cases hc : (state.store part tlvs).complete with
    | false => simp only [store_of_incomplete hc]; exact Dict.get?_set_ne _ _ h
    | true =>
      obtain ⟨last, -, -, hst⟩ := store_of_complete r key hc
      simp only [hst]
      exact Dict.get?_erase_ne _ h

theorem call_frame {c : Call} (h : c.context ≠ some key) :
    (r.call c).1.contexts.get? key = (r.expire c.now).1.contexts.get? key := by
  cases c with
  | expire now => rfl
  | feed now opened ingress frame =>
    simp only [call, Call.now]
    rcases feed_cases r now opened ingress frame with
      ⟨e, -, hf⟩ | ⟨part, e, -, -, -, hf⟩ | ⟨part, r₁, state, hrec, ho, hf⟩
    · rw [hf]
    · rw [hf]
    · have hne : key ≠ part.key ingress := by
        rintro rfl
        exact h (by simp [Call.context, hrec])
      rw [hf, accept_get?_ne hne]
      cases ho with
      | found _ => rfl
      | fresh _ _ => exact Dict.get?_set_ne _ _ hne

@[simp] theorem call_limits (c : Call) : (r.call c).1.limits = r.limits := by
  cases c with
  | expire now => exact expire_limits r now
  | feed now opened ingress frame =>
    simp only [call]
    rcases feed_cases r now opened ingress frame with
      ⟨e, -, hf⟩ | ⟨part, e, -, -, -, hf⟩ | ⟨part, r₁, state, hrec, ho, hf⟩
    · rw [hf]; exact expire_limits r now
    · rw [hf]; exact expire_limits r now
    · have h₁ : r₁.limits = r.limits := by
        cases ho with
        | found | fresh => exact expire_limits r now
      rw [hf]
      simp only [accept]
      cases r₁.judge state part with
      | quarantined | poison | duplicate => exact h₁
      | store tlvs =>
        cases hc : (state.store part tlvs).complete with
        | false => simp only [store_of_incomplete hc]; exact h₁
        | true =>
          obtain ⟨last, -, -, hst⟩ := store_of_complete r₁ (part.key ingress) hc
          simp only [hst]; exact h₁

@[simp] theorem run_limits (calls : List Call) : (r.run calls).limits = r.limits := by
  induction calls generalizing r with
  | nil => rfl
  | cons c cs ih => rw [run, List.foldl_cons, ← run, ih, call_limits]

theorem run_append_one (calls : List Call) (c : Call) :
    r.run (calls ++ [c]) = ((r.run calls).call c).1 := by
  simp [run]

end Reassembler

/-- The reply to call `n`, when the calls are made from `r` on. -/
def Reassembler.replyAt (r : Reassembler) (calls : List Call) (n : Nat) : Option Reply :=
  calls[n]?.map fun c => ((r.run (calls.take n)).call c).2

end Emosa.Wire
