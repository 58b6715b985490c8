import Emosa.C.Control
import Emosa.Lib.Text

/-!
# Emosa.C.Notify

The notifications of observed changes: one where the shown BSSes or the backhaul's parent are others
than at the call before, and one for each client that came or went. The first are told from a text in
a buffer of 512 octets, the second from a table of 256 clients.

* `EmNotifier.notify`: a call.
* `EmNotifier.changes_notified`: what is told in a session.
-/

namespace Emosa.C

open List

open Wire (Bytes)

/-- What `notify` reads of the agent. -/
structure Observed extends Shown where
  parent : Option Mac

abbrev Client := Mac × Mac

namespace Observed

def shown (v : Observed) : List (Mac × Mac × Bytes) :=
  (v.front :: v.further).flatMap fun r => r.bsses.map fun b => (r.ruid, b.bssid, b.ssid)

def clients (v : Observed) : List Client := v.bsses.flatMap fun b => b.stations.map (b.bssid, ·)

end Observed

def hexChar (n : Nat) : UInt8 := (if n < 10 then 48 + n else 87 + n).toUInt8

def hexOctet (b : UInt8) : Bytes := [hexChar (b.toNat / 16), hexChar (b.toNat % 16)]

def macStr : Bytes → Bytes
  | [] => []
  | [b] => hexOctet b
  | b :: rest => hexOctet b ++ 58 :: macStr rest

/-- `%s/%s;`. -/
def entry (b : EmBssView) : Bytes := macStr b.bssid.octets ++ 47 :: (b.ssid ++ [59])

def backhaulEntry (parent : Mac) : Bytes := 98 :: 104 :: 58 :: (macStr parent.octets ++ [59])

/-- The text compared. A BSS that comes with less than 80 octets left is not in it. -/
def Observed.text (v : Observed) : Bytes :=
  let topo := v.bsses.foldl (fun topo b => if topo.length + 80 < 512 then topo ++ entry b else topo) []
  match v.parent with
  | some parent => if topo.length + 40 < 512 then topo ++ backhaulEntry parent else topo
  | none => topo

inductive Notification where
  | topology
  | joined (c : Client)
  | left (c : Client)
  deriving DecidableEq

structure EmNotifier where
  lastTopology : Bytes := []
  notifyDue : Bool := false
  clients : List Client := []

namespace EmNotifier

/-- The clients observed that the table has not, while it has room. -/
def joins : List Client → List Client → List Client
  | _, [] => []
  | known, c :: rest =>
    if known.contains c || known.length = 256 then joins known rest
    else c :: joins (known ++ [c]) rest

/-- The table without the clients that are gone, and those in the order they are found. The last
client of the table takes the place of one that is gone. -/
def sweep (present : Client → Bool) : Nat → List Client → List Client × List Client
  | _, [] | 0, _ => ([], [])
  | n + 1, c :: rest =>
    if present c then
      let (kept, gone) := sweep present n rest
      (c :: kept, gone)
    else
      let (kept, gone) := sweep present n (rest.getLast?.toList ++ rest.dropLast)
      (kept, c :: gone)

/-- `notify`. `again`: the clients are announced again. -/
def notify (n : EmNotifier) (again : Bool) (v : Observed) : List Notification × EmNotifier :=
  let due := n.lastTopology ≠ v.text || n.notifyDue
  let known := if again then [] else n.clients
  let new := joins known v.clients
  let table := known ++ new
  let (kept, gone) := sweep v.clients.contains table.length table
  ((if due then [.topology] else []) ++ new.map .joined ++ gone.map .left,
    if due then ⟨v.text, false, kept⟩ else { n with clients := kept })

end EmNotifier

/-! ## The text -/

/-- The shown BSSes without their radios. -/
def Observed.named (v : Observed) : List (Mac × Bytes) := v.bsses.map fun b => (b.bssid, b.ssid)

/-- Every BSS and the parent are in the text, and no SSID has the character that ends an entry. -/
structure Legible (v : Observed) : Prop where
  semicolon : ∀ b ∈ v.bsses, 59 ∉ b.ssid
  fits : (v.bsses.dropLast.flatMap entry).length + 80 < 512
  parentFits : v.parent ≠ none → (v.bsses.flatMap entry).length + 40 < 512

theorem hexChar_injective : ∀ m < 16, ∀ n < 16, hexChar m = hexChar n → m = n := by decide

theorem hexOctet_injective {a b : UInt8} (h : hexOctet a = hexOctet b) : a = b := by
  have ha := a.toNat_lt
  have hb := b.toNat_lt
  simp only [hexOctet, List.cons.injEq, and_true] at h
  have hhigh := hexChar_injective _ (by omega) _ (by omega) h.1
  have hlow := hexChar_injective _ (by omega) _ (by omega) h.2
  apply UInt8.toNat_inj.mp
  omega

theorem macStr_cons (b : UInt8) (rest : Bytes) :
    macStr (b :: rest) = hexOctet b ++ if rest = [] then [] else 58 :: macStr rest := by
  cases rest <;> simp [macStr]

theorem length_macStr (b : UInt8) (rest : Bytes) : (macStr (b :: rest)).length = 3 * rest.length + 2 := by
  induction rest generalizing b with
  | nil => rfl
  | cons c rest ih =>
    rw [macStr_cons, if_neg (by simp), length_append, length_cons, ih]
    simp only [hexOctet, length_cons, length_nil]
    omega

theorem macStr_injective {a b : Bytes} (hlen : a.length = b.length) (h : macStr a = macStr b) :
    a = b := by
  induction a generalizing b with
  | nil => exact (length_eq_zero_iff.mp hlen.symm).symm
  | cons x a ih =>
    cases b with
    | nil => cases hlen
    | cons y b =>
      rw [macStr_cons, macStr_cons] at h
      obtain ⟨hxy, hrest⟩ := append_inj h rfl
      have hlen' : a.length = b.length := Nat.succ.inj hlen
      rw [hexOctet_injective hxy]
      by_cases ha : a = []
      · rw [ha] at hlen' ⊢
        rw [length_eq_zero_iff.mp hlen'.symm]
      · have hb : b ≠ [] := fun hb => ha (length_eq_zero_iff.mp (by rw [hlen', hb]; rfl))
        rw [if_neg ha, if_neg hb] at hrest
        rw [ih hlen' (List.cons.inj hrest).2]

theorem Mac.ext {a b : Mac} (h : a.octets = b.octets) : a = b := by
  cases b
  cases h
  rfl

theorem Mac.macStr_length (m : Mac) : (macStr m.octets).length = 17 := by
  obtain ⟨octets, six⟩ := m
  cases octets with
  | nil => cases six
  | cons b rest =>
    rw [length_macStr, Nat.succ.inj six]

theorem Mac.macStr_injective {a b : Mac} (h : macStr a.octets = macStr b.octets) : a = b :=
  Mac.ext (C.macStr_injective (a.six.trans b.six.symm) h)

/-- An entry is read back from the text it begins. -/
theorem entry_append {a b : EmBssView} {x y : Bytes} (ha : 59 ∉ a.ssid) (hb : 59 ∉ b.ssid)
    (h : entry a ++ x = entry b ++ y) : (a.bssid, a.ssid) = (b.bssid, b.ssid) ∧ x = y := by
  unfold entry at h
  rw [append_assoc, append_assoc] at h
  obtain ⟨hmac, hrest⟩ := append_inj h (by rw [Mac.macStr_length, Mac.macStr_length])
  simp only [cons_append, append_assoc, List.cons.injEq, true_and] at hrest
  obtain ⟨hssid, hxy⟩ := Text.split_at ha hb (.inr ⟨x, rfl⟩) (.inr ⟨y, rfl⟩) hrest
  exact ⟨by rw [Mac.macStr_injective hmac, hssid], (List.cons.inj hxy).2⟩

/-- The parent's entry, if any, begins as no BSS's does. -/
theorem parent_ne_entry (parent : Option Mac) (b : EmBssView) (x : Bytes) :
    parent.elim [] backhaulEntry ≠ entry b ++ x := by
  obtain ⟨⟨octets, six⟩, ssid, stations⟩ := b
  intro h
  cases octets with
  | nil => cases six
  | cons o rest =>
    rw [entry, macStr_cons] at h
    cases parent with
    | none => simp at h
    | some parent =>
      have hne : ∀ n < 16, (104 : UInt8) ≠ hexChar n := by decide
      simp only [Option.elim_some, backhaulEntry, hexOctet, cons_append, List.cons.injEq] at h
      exact hne _ (Nat.mod_lt _ (by decide)) h.2.1

theorem entries_injective {l l' : List EmBssView} {p p' : Option Mac} (hl : ∀ b ∈ l, 59 ∉ b.ssid)
    (hl' : ∀ b ∈ l', 59 ∉ b.ssid)
    (h : l.flatMap entry ++ p.elim [] backhaulEntry = l'.flatMap entry ++ p'.elim [] backhaulEntry) :
    l.map (fun b => (b.bssid, b.ssid)) = l'.map (fun b => (b.bssid, b.ssid)) ∧ p = p' := by
  induction l generalizing l' with
  | nil =>
    cases l' with
    | nil =>
      refine ⟨rfl, ?_⟩
      cases p <;> cases p' <;>
        simp only [flatMap_nil, nil_append, Option.elim_some, backhaulEntry, List.cons.injEq, true_and] at h
      · rfl
      · cases h
      · cases h
      · rw [Mac.macStr_injective (append_cancel_right h)]
    | cons b l' =>
      rw [flatMap_cons, append_assoc] at h
      exact absurd h (parent_ne_entry p b _)
  | cons a l ih =>
    cases l' with
    | nil =>
      rw [flatMap_cons, append_assoc] at h
      exact absurd h.symm (parent_ne_entry p' a _)
    | cons b l' =>
      rw [flatMap_cons, flatMap_cons, append_assoc, append_assoc] at h
      obtain ⟨hab, hrest⟩ := entry_append (hl a mem_cons_self) (hl' b mem_cons_self) h
      obtain ⟨hnamed, hp⟩ := ih (fun b hb => hl b (mem_cons_of_mem _ hb))
        (fun b hb => hl' b (mem_cons_of_mem _ hb)) hrest
      exact ⟨by rw [map_cons, map_cons, hab, hnamed], hp⟩

theorem foldl_entries (l : List EmBssView) (topo : Bytes)
    (h : topo.length + (l.dropLast.flatMap entry).length + 80 < 512) :
    l.foldl (fun topo b => if topo.length + 80 < 512 then topo ++ entry b else topo) topo =
      topo ++ l.flatMap entry := by
  induction l generalizing topo with
  | nil => simp
  | cons b l ih =>
    rw [foldl_cons, if_pos (by omega), flatMap_cons, ← append_assoc]
    cases l with
    | nil => simp
    | cons b' l =>
      refine ih _ ?_
      rw [dropLast_cons_of_ne_nil (by simp), flatMap_cons, length_append] at h
      rw [length_append]
      omega

theorem Legible.text_eq {v : Observed} (h : Legible v) :
    v.text = v.bsses.flatMap entry ++ v.parent.elim [] backhaulEntry := by
  have htopo := foldl_entries v.bsses [] (by simpa using h.fits)
  unfold Observed.text
  rw [htopo]
  cases hp : v.parent with
  | none => simp
  | some parent =>
    exact if_pos (h.parentFits (by rw [hp]; simp))

theorem Legible.text_injective {v w : Observed} (hv : Legible v) (hw : Legible w)
    (h : v.text = w.text) : v.named = w.named ∧ v.parent = w.parent := by
  rw [hv.text_eq, hw.text_eq] at h
  exact entries_injective hv.semicolon hw.semicolon h

/-! ## The clients -/

namespace EmNotifier

theorem joins_spec {u : List Client} (hu : u.length ≤ 256) (observed known : List Client)
    (hn : known.Nodup) (hknown : known ⊆ u) (hobs : observed ⊆ u) :
    (known ++ joins known observed).Nodup ∧
      ∀ c, c ∈ known ++ joins known observed ↔ c ∈ known ∨ c ∈ observed := by
  induction observed generalizing known with
  | nil => simpa [joins] using hn
  | cons d rest ih =>
    have hrest : rest ⊆ u := fun x hx => hobs (mem_cons_of_mem _ hx)
    by_cases hd : d ∈ known
    · obtain ⟨hnodup, hmem⟩ := ih known hn hknown hrest
      rw [joins, if_pos (by simp [hd])]
      refine ⟨hnodup, fun c => (hmem c).trans ?_⟩
      rw [mem_cons]
      constructor
      · exact Or.imp_right .inr
      · rintro (h | rfl | h)
        · exact .inl h
        · exact .inl hd
        · exact .inr h
    · have hn' : (d :: known).Nodup := nodup_cons.mpr ⟨hd, hn⟩
      have hsub : d :: known ⊆ u := cons_subset.mpr ⟨hobs mem_cons_self, hknown⟩
      have hlt : known.length + 1 ≤ 256 := le_trans (hn'.subperm hsub).length_le hu
      have hperm : (known ++ [d]).Perm (d :: known) := perm_append_singleton d known
      obtain ⟨hnodup, hmem⟩ := ih (known ++ [d]) (hperm.nodup_iff.mpr hn')
        (fun x hx => hsub (hperm.subset hx)) hrest
      rw [joins, if_neg (by simp [hd]; omega), ← singleton_append, ← append_assoc]
      refine ⟨hnodup, fun c => (hmem c).trans ?_⟩
      simp [or_assoc]

theorem sweep_spec (present : Client → Bool) (n : Nat) (l : List Client) (h : l.length ≤ n) :
    ((sweep present n l).1 ++ (sweep present n l).2).Perm l ∧
      (∀ c ∈ (sweep present n l).1, present c = true) ∧
      ∀ c ∈ (sweep present n l).2, present c = false := by
  induction n generalizing l with
  | zero =>
    rw [length_eq_zero_iff.mp (Nat.le_zero.mp h)]
    simp [sweep]
  | succ n ih =>
    cases l with
    | nil => simp [sweep]
    | cons c rest =>
      have hrest : rest.length ≤ n := Nat.le_of_succ_le_succ h
      rw [sweep]
      split
      · rename_i hc
        obtain ⟨hperm, hkept, hgone⟩ := ih rest hrest
        refine ⟨hperm.cons c, fun d hd => ?_, hgone⟩
        rcases mem_cons.mp hd with rfl | hd
        · exact hc
        · exact hkept d hd
      · rename_i hc
        -- the last client moves to the front of those not looked at yet
        have hmoved : (rest.getLast?.toList ++ rest.dropLast).Perm rest := by
          rcases eq_nil_or_concat rest with rfl | ⟨init, last, rfl⟩
          · simp
          · simpa using (perm_append_singleton last init).symm
        obtain ⟨hperm, hkept, hgone⟩ := ih _ (hmoved.length_eq.symm ▸ hrest)
        refine ⟨perm_middle.trans ((hperm.trans hmoved).cons c), hkept, fun d hd => ?_⟩
        rcases mem_cons.mp hd with rfl | hd
        · exact Bool.eq_false_iff.mpr hc
        · exact hgone d hd

/-! ## Sessions -/

/-- What a controller that hears the notifications knows. -/
def follow (known : Set Client) : Notification → Set Client
  | .topology => known
  | .joined c => insert c known
  | .left c => known \ {c}

/-- A call in a session. `due`: the pod has come back since the call before. -/
structure Call where
  due : Bool := false
  again : Bool := false
  view : Observed

def call (n : EmNotifier) (c : Call) : List Notification × EmNotifier :=
  notify { n with notifyDue := n.notifyDue || c.due } c.again c.view

/-- The agent, and what its notifications told since the clients were last announced. -/
def step (s : EmNotifier × Set Client) (c : Call) : EmNotifier × Set Client :=
  ((s.1.call c).2, (s.1.call c).1.foldl follow (if c.again then ∅ else s.2))

def run (calls : List Call) : EmNotifier × Set Client := calls.foldl step ({}, ∅)

/-- From one call to the next the text shows what changes. -/
structure Traced (a b : Call) : Prop where
  before : Legible a.view
  legible : Legible b.view
  radios : a.view.named = b.view.named → a.view.shown = b.view.shown

/-- The table has room for the clients of both calls. -/
def Roomy (a b : Call) : Prop :=
  b.again = true ∨ (a.view.clients ++ b.view.clients).dedup.length ≤ 256

theorem follow_joined (known : Set Client) (new : List Client) :
    (new.map Notification.joined).foldl follow known = known ∪ {c | c ∈ new} := by
  induction new generalizing known with
  | nil => simp
  | cons c new ih =>
    rw [map_cons, foldl_cons, ih]
    ext d
    simp [follow, or_left_comm, or_assoc]

theorem follow_left (known : Set Client) (gone : List Client) :
    (gone.map Notification.left).foldl follow known = known \ {c | c ∈ gone} := by
  induction gone generalizing known with
  | nil => simp
  | cons c gone ih =>
    rw [map_cons, foldl_cons, ih]
    ext d
    simp [follow, and_assoc]

/-- A call with room in the table leaves the clients observed in it, and tells them. -/
theorem call_clients {n : EmNotifier} {c : Call} {known : List Client}
    (hknown : known = if c.again then [] else n.clients) (hn : known.Nodup)
    (hroom : (known ++ c.view.clients).dedup.length ≤ 256) :
    (n.call c).2.clients.Nodup ∧ (∀ p, p ∈ (n.call c).2.clients ↔ p ∈ c.view.clients) ∧
      (n.call c).1.foldl follow {p | p ∈ known} = {p | p ∈ c.view.clients} := by
  obtain ⟨hnodup, hmem⟩ := joins_spec hroom c.view.clients known hn
    (fun p hp => mem_dedup.mpr (mem_append_left _ hp))
    (fun p hp => mem_dedup.mpr (mem_append_right _ hp))
  generalize hnew : joins known c.view.clients = new at hnodup hmem
  obtain ⟨hperm, hkept, hgone⟩ := sweep_spec c.view.clients.contains _ (known ++ new) le_rfl
  generalize hsweep : sweep c.view.clients.contains (known ++ new).length (known ++ new) = swept
    at hperm hkept hgone
  obtain ⟨kept, gone⟩ := swept
  have hcall : (n.call c).2.clients = kept ∧ ∃ due : Bool, (n.call c).1 =
      (if due then [.topology] else []) ++ new.map .joined ++ gone.map .left := by
    unfold call notify
    simp only [← hknown, hnew, hsweep]
    exact ⟨by split <;> rfl, _, rfl⟩
  obtain ⟨hclients, due, hout⟩ := hcall
  have hin : ∀ p, p ∈ kept ↔ p ∈ c.view.clients := by
    intro p
    constructor
    · intro hp
      simpa using hkept p hp
    · intro hp
      have htable : p ∈ kept ++ gone := hperm.mem_iff.mpr ((hmem p).mpr (.inr hp))
      refine (mem_append.mp htable).resolve_right fun hleft => ?_
      have := hgone p hleft
      simp [hp] at this
  refine ⟨hclients ▸ (hperm.nodup_iff.mpr hnodup).of_append_left, hclients ▸ hin, ?_⟩
  rw [hout, foldl_append, foldl_append, follow_left, follow_joined]
  ext p
  have hfold : (if due then [Notification.topology] else []).foldl follow {p | p ∈ known} =
      {p | p ∈ known} := by cases due <;> rfl
  rw [hfold]
  have htable := (hperm.mem_iff (a := p)).trans mem_append
  rw [mem_append] at htable
  simp only [Set.mem_sdiff, Set.mem_union, Set.mem_ofPred_eq, ← htable, ← hin p]
  constructor
  · rintro ⟨h | h, hnot⟩
    · exact h
    · exact absurd h hnot
  · intro h
    refine ⟨.inl h, fun hleft => ?_⟩
    have := (hkept p h).symm.trans (hgone p hleft)
    cases this

/-- What a session has between two calls. -/
structure Told (calls : List Call) (s : EmNotifier × Set Client) : Prop where
  nodup : s.1.clients.Nodup
  told : s.2 = {p | p ∈ s.1.clients}
  last : ∀ before, calls.getLast? = some before → ∀ p, p ∈ s.1.clients ↔ p ∈ before.view.clients
  first : calls = [] → s.1.clients = []

theorem lastTopology_call (n : EmNotifier) (c : Call) : (n.call c).2.lastTopology = c.view.text := by
  unfold call notify
  simp only
  split
  · rfl
  · rename_i h
    simp only [Bool.or_eq_true, decide_eq_true_eq, not_or, Decidable.not_not] at h
    exact h.1

theorem lastTopology_run {calls : List Call} {before : Call} (h : calls.getLast? = some before) :
    (run calls).1.lastTopology = before.view.text := by
  obtain ⟨calls, rfl⟩ := getLast?_eq_some_iff.mp h
  rw [run, foldl_append]
  exact lastTopology_call _ before

theorem room_of_roomy {calls : List Call} {c : Call} {s : EmNotifier × Set Client}
    (h : Told calls s) (hclients : c.view.clients.dedup.length ≤ 256)
    (hroomy : ∀ before, calls.getLast? = some before → Roomy before c) :
    ((if c.again then [] else s.1.clients) ++ c.view.clients).dedup.length ≤ 256 := by
  have hnone : ∀ l : List Client, l = [] → (l ++ c.view.clients).dedup.length ≤ 256 := by
    rintro l rfl
    exact hclients
  cases hagain : c.again with
  | true => exact hnone _ rfl
  | false =>
    cases hlast : calls.getLast? with
    | none => exact hnone _ (h.first (getLast?_eq_none_iff.mp hlast))
    | some before =>
      have hroom := (hroomy before hlast).resolve_left (by simp [hagain])
      have hsub : (s.1.clients ++ c.view.clients).dedup ⊆
          (before.view.clients ++ c.view.clients).dedup := by
        intro p hp
        rw [mem_dedup, mem_append, h.last before hlast p] at hp
        exact mem_dedup.mpr (mem_append.mpr hp)
      exact le_trans ((nodup_dedup _).subperm hsub).length_le hroom

theorem Told.step {calls : List Call} {c : Call} {s : EmNotifier × Set Client} (h : Told calls s)
    (hclients : c.view.clients.dedup.length ≤ 256)
    (hroomy : ∀ before, calls.getLast? = some before → Roomy before c) :
    Told (calls ++ [c]) (EmNotifier.step s c) := by
  have hknown : (if c.again then ∅ else s.2) =
      {p | p ∈ if c.again then [] else s.1.clients} := by
    rw [h.told]
    cases c.again <;> simp
  have hn : (if c.again then [] else s.1.clients).Nodup := by
    cases c.again with
    | true => exact nodup_nil
    | false => exact h.nodup
  obtain ⟨hnodup, hin, hfold⟩ := call_clients rfl hn (room_of_roomy h hclients hroomy)
  refine ⟨hnodup, ?_, ?_, by simp⟩
  · unfold EmNotifier.step
    simp only [hknown, hfold, hin]
  · intro before hbefore
    rw [getLast?_concat] at hbefore
    obtain rfl := Option.some.inj hbefore
    exact hin

theorem told_run {calls : List Call} (hclients : ∀ c ∈ calls, c.view.clients.dedup.length ≤ 256)
    (hroomy : calls.IsChain Roomy) : Told calls (run calls) := by
  induction calls using List.reverseRecOn with
  | nil => exact ⟨nodup_nil, by simp [run], by simp, fun _ => rfl⟩
  | append_singleton calls c ih =>
    rw [run, foldl_append]
    refine (ih (fun c' hc' => hclients c' (mem_append_left _ hc')) hroomy.left_of_append).step
      (hclients c (by simp)) fun before hbefore => ?_
    exact (isChain_append.mp hroomy).2.2 before hbefore c rfl

/-- **Notifications.** A change of the shown BSSes or of the parent that the text shows is notified,
and along calls for whose clients there is room, what was told of the clients is what is observed. -/
theorem changes_notified (calls : List Call) (c : Call) :
    (∀ before, calls.getLast? = some before → Traced before c →
      before.view.shown ≠ c.view.shown ∨ before.view.parent ≠ c.view.parent →
      .topology ∈ ((run calls).1.call c).1) ∧
    ((∀ c' ∈ calls ++ [c], c'.view.clients.dedup.length ≤ 256) → (calls ++ [c]).IsChain Roomy →
      (run (calls ++ [c])).2 = {p | p ∈ c.view.clients}) := by
  constructor
  · intro before hbefore htraced hchanged
    have hne : (run calls).1.lastTopology ≠ c.view.text := by
      rw [lastTopology_run hbefore]
      intro htext
      obtain ⟨hnamed, hparent⟩ := htraced.before.text_injective htraced.legible htext
      exact hchanged.elim (fun h => h (htraced.radios hnamed)) fun h => h hparent
    unfold call notify
    simp [hne]
  · intro hclients hroomy
    have hrun := told_run hclients hroomy
    rw [hrun.told]
    ext p
    exact hrun.last c (getLast?_concat ..) p

def named (ssid : Bytes) (stations : List Mac) : Call :=
  { view := { front := ⟨sampleMac 1, [⟨sampleMac 2, ssid, stations⟩]⟩, further := [], parent := none } }

theorem renamed_notified :
    .topology ∈ ((run [named [97] []]).1.call (named [98] [sampleMac 9])).1 ∧
      (run [named [97] [], named [98] [sampleMac 9]]).2 = {p | p ∈ [(sampleMac 2, sampleMac 9)]} := by
  obtain ⟨hchanged, htold⟩ := changes_notified [named [97] []] (named [98] [sampleMac 9])
  exact ⟨hchanged _ rfl ⟨⟨by decide, by decide, by decide⟩, ⟨by decide, by decide, by decide⟩, by decide⟩
    (.inl (by decide)), htold (by decide) (.cons_cons (.inr (by decide)) (.singleton _))⟩

/-- Ten BSSes with SSIDs of 32 octets, the last of them of `letter`s. -/
def crowded (letter : UInt8) : Call :=
  { view :=
    { front := ⟨sampleMac 0, (List.range 10).map fun i =>
        ⟨sampleMac i.toUInt8, List.replicate 32 (if i = 9 then letter else 97), []⟩⟩
      further := []
      parent := none } }

/-- The tenth BSS is not in the text, so its new SSID is not notified. -/
theorem renaming_unnoticed : (crowded 97).view.shown ≠ (crowded 98).view.shown ∧
    .topology ∉ ((run [crowded 97]).1.call (crowded 98)).1 := by
  decide +kernel

end EmNotifier
end Emosa.C
