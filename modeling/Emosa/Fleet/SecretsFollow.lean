import Emosa.Fleet.Secrets

/-!
# Emosa.Fleet.SecretsFollow

An agent's copy of a secret follows the fleet's, and a value placed by hand stays.

* `Rule`: what a run of the program may do to the files of one reference, said once. It creates the
  copy from the fleet's value, replaces a marked one by it, and marks a copy that equals it.
* `rule_kept`, `rule_sourced`, `rule_held`: what every operation the rule allows keeps.
* `provision_follows`: the program keeps to the rule, wherever it is killed.
* `copy_follows_source`: both statements over whole runs.
-/

namespace Emosa.Fleet

open Durable Files Site List Option
open FileOp (names)

/-! ## Names -/

theorem reference_ne_dotted {ref name : String} (h : isReference ref = true)
    (hname : name.toList.head? = some '.') : ref ≠ name := by
  rintro rfl
  unfold isReference at h
  cases hl : ref.toList with
  | nil => rw [hl] at hname; cases hname
  | cons c rest =>
    rw [hl] at h hname
    cases hname
    simp at h

theorem head_markerName (ref : String) : (markerName ref).toList.head? = some '.' := by
  simp [markerName]

theorem head_temporary (name : String) : (temporary name).toList.head? = some '.' := by
  simp [temporary]

theorem head_keyName : keyName.toList.head? = some '.' := by decide

theorem markerName_ne_keyName (ref : String) : markerName ref ≠ keyName := by
  intro h
  have hlast := congrArg (fun s => s.toList.reverse.head?) h
  simp [markerName, keyName] at hlast

theorem temporary_ne_keyName (name : String) : temporary name ≠ keyName := by
  intro h
  have hchars := congrArg (fun s => s.toList[1]?) h
  simp [temporary, keyName] at hchars

/-- The files of the references are different ones. -/
structure Apart (ref other : String) : Prop where
  ne : other ≠ ref
  value : markerName ref ≠ temporary other
  mark : markerName ref ≠ temporary (markerName other)

theorem markerName_injective {a b : String} (h : markerName a = markerName b) : a = b := by
  have hchars := congrArg String.toList h
  simp only [markerName, String.toList_append, append_cancel_right_eq,
    append_cancel_left_eq] at hchars
  exact String.toList_injective hchars

theorem markerName_ne_temporary_self (ref : String) : markerName ref ≠ temporary ref := by
  intro h
  have hlen := congrArg (fun s => s.toList.length) h
  simp [markerName, temporary] at hlen

/-! ## The rule -/

abbrev FileProc := Proc Unit SecretFiles (FileOp String SecretFile)

variable {h : Hmac} {ref : String} {source : Option Bytes} {d : SecretFiles}
variable {p : FileProc}

/-- The copy has its marker. -/
def Marked (h : Hmac) (ref : String) (d : SecretFiles) : Prop :=
  ∃ k own, read d keyName = some k ∧ read d ref = some own ∧
    read d (markerName ref) = some (h.digest k own)

inductive Rule (h : Hmac) (ref : String) (source : Option Bytes) (d : SecretFiles) :
    FileOp String SecretFile → Prop
  | other (op : FileOp String SecretFile) : ref ∉ op.names → markerName ref ∉ op.names →
      keyName ∉ op.names → Rule h ref source d op
  | key (draw : Draw) : Rule h ref source d (.create keyName ⟨draw.bytes, true⟩)
  | create (v : Bytes) : source = some v → d.get? ref = none →
      Rule h ref source d (.create ref ⟨v, true⟩)
  | replace (v : Bytes) : source = some v → Marked h ref d →
      d.get? (temporary ref) = some ⟨v, true⟩ → Rule h ref source d (.rename (temporary ref) ref)
  | mark (v k : Bytes) : source = some v → read d ref = some v → read d keyName = some k →
      d.get? (temporary (markerName ref)) = some ⟨h.digest k v, true⟩ →
      Rule h ref source d (.rename (temporary (markerName ref)) (markerName ref))

variable {d' : SecretFiles}

theorem read_congr {name : String} (hget : d'.get? name = d.get? name) :
    read d' name = read d name := by rw [read, hget, read]

theorem read_of_short {name : String} {v : Bytes} (hget : d.get? name = some ⟨v, true⟩)
    (hv : v.length ≤ secretLimit) : read d name = some v := by
  simp [read, hget, SecretFile.read?, hv]

theorem length_of_read {name : String} {v : Bytes} (hr : read d name = some v) :
    v.length ≤ secretLimit := by
  obtain ⟨f, -, hf⟩ := bind_eq_some_iff.mp hr
  unfold SecretFile.read? at hf
  split at hf
  · rename_i hok
    cases hf
    simpa using (Bool.and_eq_true_iff.mp hok).2
  · cases hf

/-- What an operation the rule allows does to the key, the copy and the marker. -/
inductive Effect (h : Hmac) (ref : String) (source : Option Bytes) (d d' : SecretFiles) : Prop
  | none : d'.get? keyName = d.get? keyName → d'.get? ref = d.get? ref →
      d'.get? (markerName ref) = d.get? (markerName ref) → Effect h ref source d d'
  | key (k : Bytes) : d.get? keyName = none → read d' keyName = some k →
      d'.get? ref = d.get? ref → d'.get? (markerName ref) = d.get? (markerName ref) →
      Effect h ref source d d'
  | copy (v : Bytes) : source = some v → d.get? ref = .none ∨ Marked h ref d →
      d'.get? keyName = d.get? keyName → d'.get? ref = some ⟨v, true⟩ →
      d'.get? (markerName ref) = d.get? (markerName ref) → Effect h ref source d d'
  | mark (v k : Bytes) : source = some v → read d ref = some v → read d keyName = some k →
      d'.get? keyName = d.get? keyName → d'.get? ref = d.get? ref →
      d'.get? (markerName ref) = some ⟨h.digest k v, true⟩ → Effect h ref source d d'

theorem rule_effect (href : isReference ref = true) {op : FileOp String SecretFile}
    (hop : Rule h ref source d op) : Effect h ref source d (apply d op) := by
  have hkey : keyName ≠ ref := (reference_ne_dotted href head_keyName).symm
  have hmark : markerName ref ≠ ref := (reference_ne_dotted href (head_markerName ref)).symm
  cases hop with
  | other op h₁ h₂ h₃ =>
    exact .none (get?_apply_of_not_mem h₃) (get?_apply_of_not_mem h₁) (get?_apply_of_not_mem h₂)
  | key draw =>
    have hcopy : (apply d (.create keyName ⟨draw.bytes, true⟩)).get? ref = d.get? ref :=
      get?_apply_of_not_mem (by simpa [names] using hkey.symm)
    have hmarker : (apply d (.create keyName ⟨draw.bytes, true⟩)).get? (markerName ref) =
        d.get? (markerName ref) :=
      get?_apply_of_not_mem (by simpa [names] using markerName_ne_keyName ref)
    cases hk : d.get? keyName with
    | none =>
      refine .key draw.bytes hk (read_of_short ?_ ?_) hcopy hmarker
      · rw [get?_create, hk]
        rfl
      · rw [draw.length_bytes]
        decide
    | some f =>
      refine .none ?_ hcopy hmarker
      rw [get?_create, hk]
      rfl
  | create v hv hnone =>
    refine .copy v hv (.inl hnone) (get?_apply_of_not_mem ?_) ?_ (get?_apply_of_not_mem ?_)
    · simpa [names] using hkey
    · rw [get?_create, hnone]
      rfl
    · simpa [names] using hmark
  | replace v hv hm htemp =>
    refine .copy v hv (.inr hm) (get?_apply_of_not_mem ?_) (get?_rename htemp)
      (get?_apply_of_not_mem ?_)
    · simpa [names] using ⟨(temporary_ne_keyName ref).symm, hkey⟩
    · simpa [names] using ⟨markerName_ne_temporary_self ref, hmark⟩
  | mark v k hv hcopy hk htemp =>
    refine .mark v k hv hcopy hk (get?_apply_of_not_mem ?_) (get?_apply_of_not_mem ?_)
      (get?_rename htemp)
    · simpa [names] using
        ⟨(temporary_ne_keyName (markerName ref)).symm, (markerName_ne_keyName ref).symm⟩
    · simpa [names] using
        ⟨reference_ne_dotted href (head_temporary (markerName ref)), hmark.symm⟩

/-! ## What the rule keeps -/

/-- A key that is there can be read. -/
def Readable (d : SecretFiles) : Prop := d.get? keyName ≠ none → read d keyName ≠ none

theorem effect_readable (he : Effect h ref source d d') (hd : Readable d) : Readable d' := by
  cases he with
  | none hkey _ _ | copy _ _ _ hkey _ _ | mark _ _ _ _ _ hkey _ _ =>
    rw [Readable, hkey, read_congr hkey]
    exact hd
  | key k _ hk _ _ => exact fun _ => by simp [hk]

/-- A copy that is there can be read, and it is marked or the fleet's value: while the fleet has a
value, the next run makes the copy equal to it. -/
structure Kept (h : Hmac) (ref : String) (source : Option Bytes) (d : SecretFiles) : Prop where
  copy : d.get? ref ≠ none → read d ref ≠ none
  follows : source = none ∨ d.get? ref = none ∨ Marked h ref d ∨ read d ref = source

theorem Marked.of_read (hm : Marked h ref d) (hkey : d'.get? keyName = d.get? keyName)
    (hcopy : d'.get? ref = d.get? ref)
    (hmark : d'.get? (markerName ref) = d.get? (markerName ref)) : Marked h ref d' := by
  obtain ⟨k, own, hk, hown, hmarker⟩ := hm
  exact ⟨k, own, (read_congr hkey).trans hk, (read_congr hcopy).trans hown,
    (read_congr hmark).trans hmarker⟩

theorem Kept.of_copy (hd : Kept h ref source d) (hcopy : d'.get? ref = d.get? ref)
    (hm : Marked h ref d → Marked h ref d') : Kept h ref source d' := by
  refine ⟨?_, ?_⟩ <;> rw [hcopy, read_congr hcopy]
  · exact hd.copy
  · exact hd.follows.imp_right (.imp_right (.imp_left hm))

theorem effect_kept (hlen : ∀ v, source = some v → v.length ≤ secretLimit)
    (he : Effect h ref source d d') (hd : Kept h ref source d) : Kept h ref source d' := by
  cases he with
  | none hkey hcopy hmark => exact hd.of_copy hcopy (·.of_read hkey hcopy hmark)
  | key k hnone hk hcopy hmark =>
    refine hd.of_copy hcopy fun ⟨k', own, hk', _⟩ => ?_
    simp [read, hnone] at hk'
  | copy v hv _ hkey hcopy hmark =>
    have hread := read_of_short hcopy (hlen v hv)
    exact ⟨fun _ => by simp [hread], .inr (.inr (.inr (hread.trans hv.symm)))⟩
  | mark v k hv hown hk hkey hcopy hmark =>
    refine hd.of_copy hcopy fun _ => ⟨k, v, (read_congr hkey).trans hk,
      (read_congr hcopy).trans hown, read_of_short hmark ?_⟩
    rw [h.length_digest]
    decide

theorem effect_equal (hlen : ∀ v, source = some v → v.length ≤ secretLimit)
    (he : Effect h ref source d d') (hd : read d ref = source) : read d' ref = source := by
  cases he with
  | none _ hcopy _ | key _ _ _ hcopy _ | mark _ _ _ _ _ _ hcopy _ =>
    exact (read_congr hcopy).trans hd
  | copy v hv _ _ hcopy _ => exact (read_of_short hcopy (hlen v hv)).trans hv.symm

/-- Every marker is that of one of `values`. -/
def Sourced (h : Hmac) (ref : String) (values : Bytes → Prop) (d : SecretFiles) : Prop :=
  ∀ m, read d (markerName ref) = some m →
    ∃ k v, read d keyName = some k ∧ m = h.digest k v ∧ values v

theorem effect_sourced {values : Bytes → Prop} (hsource : ∀ v, source = some v → values v)
    (he : Effect h ref source d d') (hd : Sourced h ref values d) : Sourced h ref values d' := by
  intro m hm
  cases he with
  | none hkey _ hmark | copy _ _ _ hkey _ hmark =>
    obtain ⟨k, v, hk, hmv, hv⟩ := hd m ((read_congr hmark).symm.trans hm)
    exact ⟨k, v, (read_congr hkey).trans hk, hmv, hv⟩
  | key k hnone _ _ hmark =>
    obtain ⟨k', v, hk', -⟩ := hd m ((read_congr hmark).symm.trans hm)
    simp [read, hnone] at hk'
  | mark v k hv _ hk hkey _ hmark =>
    have hread := read_of_short hmark (by rw [h.length_digest]; decide)
    exact ⟨k, v, (read_congr hkey).trans hk, some.inj (hm.symm.trans hread), hsource v hv⟩

/-- Under the store's key the marker of `v` is that of none of `values`. -/
def Unlike (h : Hmac) (values : Bytes → Prop) (v : Bytes) (d : SecretFiles) : Prop :=
  ∀ k w, read d keyName = some k → values w → h.digest k w ≠ h.digest k v

/-- The key stays, so what is so in the end was so before. -/
theorem effect_unlike {values : Bytes → Prop} {v : Bytes} (he : Effect h ref source d d')
    (hd : Unlike h values v d') : Unlike h values v d := by
  intro k w hk
  cases he with
  | none hkey _ _ | copy _ _ _ hkey _ _ | mark _ _ _ _ _ hkey _ _ =>
    exact hd k w ((read_congr hkey).trans hk)
  | key _ hnone _ _ _ => simp [read, hnone] at hk

theorem effect_held {values : Bytes → Prop} {f : SecretFile} (hnew : Unlike h values f.data d)
    (he : Effect h ref source d d') (hd : Sourced h ref values d) (hf : d.get? ref = some f) :
    d'.get? ref = some f := by
  cases he with
  | none _ hcopy _ | key _ _ _ hcopy _ | mark _ _ _ _ _ _ hcopy _ => exact hcopy.trans hf
  | copy v hv hwhy _ _ _ =>
    rcases hwhy with hnone | ⟨k, own, hk, hown, hmark⟩
    · rw [hnone] at hf
      cases hf
    · obtain ⟨k', v', hk', hmv, hv'⟩ := hd _ hmark
      obtain rfl : k = k' := some.inj (hk.symm.trans hk')
      have hdata : own = f.data := by
        simp only [read, hf, bind_some, SecretFile.read?] at hown
        split at hown
        · exact (some.inj hown).symm
        · cases hown
      exact absurd (hdata ▸ hmv).symm (hnew k v' hk hv')

/-! ## The program keeps to the rule -/

/-- What every operation the rule allows keeps of a process; its key can be read. -/
structure Closed (h : Hmac) (ref : String) (source : Option Bytes)
    (P : FileProc → Prop) : Prop where
  commit : ∀ p op, P p → Rule h ref source p.journal op → P (p.commit op)
  readable : ∀ p, P p → Readable p.journal

section Programs

variable {P : FileProc → Prop} {draw : Draw}
variable (href : isReference ref = true) (hP : Closed h ref source P)

/-- The key of the store, and nothing but its file changed. -/
structure Keyed (P : FileProc → Prop)
    (p p' : FileProc) : Prop where
  follows : P p'
  others : ∀ name, name ≠ keyName → p'.journal.get? name = p.journal.get? name
  kept : ∀ k, read p.journal keyName = some k → read p'.journal keyName = some k

theorem Keyed.copy {p' : FileProc} (hk : Keyed P p p')
    (href : isReference ref = true) : p'.journal.get? ref = p.journal.get? ref :=
  hk.others ref (reference_ne_dotted href head_keyName)

include hP in
theorem wp_key (hp : P p) :
    wp (key draw) (fun r p' => Keyed P p p' ∧
      ∃ k, r = .ok k ∧ read p'.journal keyName = some k) p := by
  have hread : ∀ p', Keyed P p p' → p'.journal.get? keyName ≠ none →
      wp storedKey (fun r p' => Keyed P p p' ∧
        ∃ k, r = .ok k ∧ read p'.journal keyName = some k) p' := by
    intro p' hk hsome
    simp only [storedKey, wp_bind, wp_journal]
    cases hr : read p'.journal keyName with
    | none => exact absurd hr (hP.readable _ hk.follows hsome)
    | some k => exact ⟨hk, k, rfl, hr⟩
  simp only [key, wp_bind, wp_journal]
  split
  · rename_i hnone
    have hget : p.journal.get? keyName = none := isNone_iff_eq_none.mp hnone
    refine hread _ ⟨hP.commit _ _ hp (.key draw), fun name hne => ?_, fun k hk => ?_⟩ ?_
    · exact get?_apply_of_not_mem (by simpa [names] using hne)
    · simp [read, hget] at hk
    · rw [Proc.commit_journal, get?_create]
      simp
  · rename_i hsome
    exact hread p ⟨hp, fun _ _ => rfl, fun _ hk => hk⟩ fun hget => hsome (by simp [hget])

include hP in
theorem wp_marker (value : Bytes) (hp : P p) :
    wp (marker h draw value) (fun r p' => Keyed P p p' ∧
      ∃ k, read p'.journal keyName = some k ∧ r = .ok (h.digest k value)) p := by
  simp only [marker, wp_bind]
  refine wp_mono (wp_key hP hp) ?_
  rintro _ p' ⟨hk, k, rfl, hkey⟩
  exact ⟨hk, k, hkey, rfl⟩

include hP in
theorem wp_marked (value : Bytes) (seen : Option Bytes) (hp : P p) :
    wp (marked h draw value seen) (fun r p' => Keyed P p p' ∧
      ∃ b, r = .ok b ∧
        (b = true ↔ ∃ k, read p'.journal keyName = some k ∧ seen = some (h.digest k value))) p := by
  cases seen with
  | none => exact ⟨⟨hp, fun _ _ => rfl, fun _ hk => hk⟩, false, rfl, by simp⟩
  | some m =>
    simp only [marked, wp_bind]
    refine wp_mono (wp_marker hP value hp) ?_
    rintro _ p' ⟨hk, k, hkey, rfl⟩
    refine ⟨hk, decide (m = h.digest k value), rfl, ?_⟩
    simp only [decide_eq_true_eq, some.injEq]
    constructor
    · intro he
      exact ⟨k, hkey, he⟩
    · rintro ⟨k', hk', he⟩
      rwa [some.inj (hk'.symm.trans hkey)] at he

theorem rule_write {name : String} (v : Bytes) (hname : markerName ref ≠ temporary name)
    (href : isReference ref = true) :
    Rule h ref source d (.write (temporary name) ⟨v, true⟩) := by
  refine .other _ ?_ ?_ ?_
  · simpa [names] using reference_ne_dotted href (head_temporary name)
  · simpa [names] using hname
  · simpa [names] using (temporary_ne_keyName name).symm

theorem markerName_ne_temporary_markerName (ref : String) :
    markerName ref ≠ temporary (markerName ref) := by
  intro h
  have hlen := congrArg (fun s => s.toList.length) h
  simp [temporary] at hlen
  omega

include href hP in
theorem wp_mark {v : Bytes} (hv : source = some v) (hcopy : read p.journal ref = some v)
    (hp : P p) :
    wp (mark h draw v ref) (fun r p' => r = .ok () ∧ P p' ∧
      p'.journal.get? ref = p.journal.get? ref) p := by
  have htemp : ref ≠ temporary (markerName ref) := reference_ne_dotted href (head_temporary _)
  have hmark : ref ≠ markerName ref := reference_ne_dotted href (head_markerName ref)
  simp only [mark, wp_bind]
  refine wp_mono (wp_marker hP v hp) ?_
  rintro _ p₁ ⟨hk, k, hread, rfl⟩
  simp only [replacePrivate, wp_bind, wp_commit]
  have hwrite := hP.commit _ _ hk.follows
    (rule_write (h.digest k v) (markerName_ne_temporary_markerName ref) href)
  have hcopy₂ : (p₁.commit (.write (temporary (markerName ref)) ⟨h.digest k v, true⟩)).journal.get?
      ref = p.journal.get? ref :=
    (get?_apply_of_not_mem (by simpa [names] using htemp)).trans (hk.copy href)
  refine ⟨trivial, hP.commit _ _ hwrite (.mark v k hv ?_ ?_ get?_write_self), ?_⟩
  · exact (read_congr hcopy₂).trans hcopy
  · refine (read_congr (get?_apply_of_not_mem ?_)).trans hread
    simpa [names] using (temporary_ne_keyName (markerName ref)).symm
  · refine Eq.trans (get?_apply_of_not_mem ?_) hcopy₂
    simpa [names] using ⟨htemp, hmark⟩

include hP in
theorem keeps_marker (value : Bytes) :
    Durable.Keeps P (marker h draw value) := by
  intro p hp
  refine wp_mono (wp_marker hP value hp) ?_
  rintro _ p' ⟨hk, k, -, rfl⟩
  exact ⟨⟨_, rfl⟩, hk.follows⟩

include hP in
theorem keeps_marked (value : Bytes) (seen : Option Bytes) :
    Durable.Keeps P (marked h draw value seen) := by
  intro p hp
  refine wp_mono (wp_marked hP value seen hp) ?_
  rintro _ p' ⟨hk, b, rfl, -⟩
  exact ⟨⟨_, rfl⟩, hk.follows⟩

include hP in
theorem keeps_unsourced (own : Bytes) (seen : Option Bytes) (other : String) (rep : Report) :
    Durable.Keeps P (unsourced h draw own seen other rep) :=
  .bind (keeps_marked hP own seen) fun _ => .ite (.pure _) (.pure _)

include href hP in
theorem wp_marking {own : Bytes} (hs : source = some own) (hown : read p.journal ref = some own)
    (seen : Option Bytes) (rep : Report) (hp : P p) :
    wp (marking h draw own seen ref rep) (fun r p' => (∃ a, r = .ok a) ∧
      P p' ∧ read p'.journal ref = source) p := by
  simp only [marking, wp_bind]
  refine wp_mono (wp_marked hP own seen hp) ?_
  rintro _ p₁ ⟨hk, b, rfl, -⟩
  have hcopy : read p₁.journal ref = some own := (read_congr (hk.copy href)).trans hown
  cases b with
  | true => exact ⟨⟨_, rfl⟩, hk.follows, hcopy.trans hs.symm⟩
  | false =>
    show wp (do mark h draw own ref; pure rep) _ _
    rw [wp_bind]
    refine wp_mono (wp_mark href hP hs hcopy hk.follows) ?_
    rintro _ p' ⟨rfl, hf, hsame⟩
    exact ⟨⟨_, rfl⟩, hf, ((read_congr hsame).trans hcopy).trans hs.symm⟩

include href hP in
theorem wp_replacing (hlen : ∀ v, source = some v → v.length ≤ secretLimit) {own v : Bytes}
    (hs : source = some v) (hown : read p.journal ref = some own) (rep : Report)
    (hp : P p) :
    wp (replacing h draw own v (read p.journal (markerName ref)) ref rep) (fun r p' =>
      (∃ a, r = .ok a) ∧ P p' ∧
      (Marked h ref p.journal → read p'.journal ref = source)) p := by
  simp only [replacing, wp_bind]
  refine wp_mono (wp_marked hP own _ hp) ?_
  rintro _ p₁ ⟨hk, b, rfl, hb⟩
  have hcopy : read p₁.journal ref = some own := (read_congr (hk.copy href)).trans hown
  have hmark : read p₁.journal (markerName ref) = read p.journal (markerName ref) :=
    read_congr (hk.others _ (markerName_ne_keyName ref))
  cases b with
  | false =>
    refine ⟨⟨_, rfl⟩, hk.follows, fun ⟨k, own', hread, hown', hseen⟩ => ?_⟩
    obtain rfl : own' = own := some.inj (hown'.symm.trans hown)
    exact absurd (hb.mpr ⟨k, hk.kept k hread, hseen⟩) (by simp)
  | true =>
    obtain ⟨k, hread, hseen⟩ := hb.mp rfl
    have hm : Marked h ref p₁.journal := ⟨k, own, hread, hcopy, hmark.trans hseen⟩
    show wp (do
      replacePrivate ref v
      mark h draw v ref
      pure { rep with replaced := rep.replaced ++ [ref] }) _ _
    simp only [replacePrivate, wp_bind, wp_commit]
    have hwrite := hP.commit _ _ hk.follows (rule_write v (markerName_ne_temporary_self ref) href)
    have hother : ∀ name, name ≠ temporary ref →
        (p₁.commit (.write (temporary ref) ⟨v, true⟩)).journal.get? name = p₁.journal.get? name :=
      fun name hne => get?_apply_of_not_mem (by simpa [names] using hne)
    have hm₂ : Marked h ref (p₁.commit (.write (temporary ref) ⟨v, true⟩)).journal :=
      hm.of_read (hother _ (temporary_ne_keyName ref).symm)
        (hother _ (reference_ne_dotted href (head_temporary ref)))
        (hother _ (markerName_ne_temporary_self ref))
    have hreplace := hP.commit _ _ hwrite (.replace v hs hm₂ get?_write_self)
    have hnew : ((p₁.commit (.write (temporary ref) ⟨v, true⟩)).commit
        (.rename (temporary ref) ref)).journal.get? ref = some ⟨v, true⟩ :=
      get?_rename get?_write_self
    have hread₂ := read_of_short hnew (hlen v hs)
    refine wp_mono (wp_mark href hP hs hread₂ hreplace) ?_
    rintro _ p' ⟨rfl, hf, hsame⟩
    exact ⟨⟨_, rfl⟩, hf, fun _ => ((read_congr hsame).trans hread₂).trans hs.symm⟩

include href hP in
/-- The reference's own turn. The copy it leaves is the fleet's value, when it was absent, marked or
the fleet's already. -/
theorem wp_provision (hlen : ∀ v, source = some v → v.length ≤ secretLimit) (rep : Report)
    (hp : P p) :
    wp (provision h draw source ref rep) (fun r p' => (∃ a, r = .ok a) ∧
      P p' ∧
      (Kept h ref source p.journal → source ≠ none → read p'.journal ref = source)) p := by
  simp only [provision, wp_bind, wp_journal]
  split
  · rename_i hown
    split
    · rename_i hs
      exact ⟨⟨_, rfl⟩, hp, fun _ hne => absurd rfl hne⟩
    · rename_i v
      split
      · rename_i hfile
        refine ⟨⟨_, rfl⟩, hp, fun hkept _ => absurd hown (hkept.copy fun hnone => ?_)⟩
        rw [hnone] at hfile
        cases hfile
      · rename_i hfile
        have hnone : p.journal.get? ref = none := by simpa using hfile
        simp only [wp_bind, wp_commit]
        have hmade : (p.commit (.create ref ⟨v, true⟩)).journal.get? ref = some ⟨v, true⟩ := by
          rw [Proc.commit_journal, get?_create, hnone]
          rfl
        have hread := read_of_short hmade (hlen v rfl)
        refine wp_mono (wp_mark href hP rfl hread (hP.commit _ _ hp (.create v rfl hnone))) ?_
        rintro _ p' ⟨rfl, hf, hcopy⟩
        exact ⟨⟨_, rfl⟩, hf, fun _ _ => (read_congr hcopy).trans hread⟩
  · rename_i own hown
    split
    · refine wp_mono (keeps_unsourced hP own _ ref rep p hp) ?_
      rintro r p' ⟨hr, hf⟩
      exact ⟨hr, hf, fun _ hne => absurd rfl hne⟩
    · rename_i v
      split
      · rename_i heq
        subst heq
        refine wp_mono (wp_marking href hP rfl hown _ rep hp) ?_
        rintro r p' ⟨hr, hf, hread⟩
        exact ⟨hr, hf, fun _ _ => hread⟩
      · rename_i hdiff
        refine wp_mono (wp_replacing href hP hlen rfl hown rep hp) ?_
        rintro r p' ⟨hr, hf, hread⟩
        refine ⟨hr, hf, fun hkept hne => ?_⟩
        rcases hkept.follows with hn | hn | hm | heq
        · exact absurd hn hne
        · simp [read, hn] at hown
        · exact hread hm
        · exact absurd (some.inj (hown.symm.trans heq)) hdiff

/-! ## The turns of the other references -/

include hP in
theorem keeps_commit {op : FileOp String SecretFile} (hop : ∀ d, Rule h ref source d op) :
    Durable.Keeps P (commit op : FileProg Unit) :=
  fun _ hp => ⟨⟨(), rfl⟩, hP.commit _ _ hp (hop _)⟩

include href hP in
theorem keeps_replacePrivate {name : String} (v : Bytes) (hname : name ≠ ref)
    (hmark : markerName ref ≠ name) (hkey : keyName ≠ name)
    (htemp : markerName ref ≠ temporary name) :
    Durable.Keeps P (replacePrivate name v) := by
  refine .bind (keeps_commit hP fun _ => rule_write v htemp href) fun _ =>
    keeps_commit hP fun _ => .other _ ?_ ?_ ?_
  · simpa [names] using ⟨reference_ne_dotted href (head_temporary name), hname.symm⟩
  · simpa [names] using ⟨htemp, hmark⟩
  · simpa [names] using ⟨(temporary_ne_keyName name).symm, hkey⟩

variable {other : String} (hother : isReference other = true) (hapart : Apart ref other)

include href hP hapart in
theorem keeps_mark (value : Bytes) :
    Durable.Keeps P (mark h draw value other) := by
  refine .bind (keeps_marker hP value) fun m => keeps_replacePrivate href hP m ?_ ?_ ?_ ?_
  · exact (reference_ne_dotted href (head_markerName other)).symm
  · exact fun heq => hapart.ne (markerName_injective heq).symm
  · exact (markerName_ne_keyName other).symm
  · exact hapart.mark

include href hP hother hapart in
theorem keeps_provision (value : Option Bytes) (rep : Report) :
    Durable.Keeps P (provision h draw value other rep) := by
  have hmarked : ∀ own seen, Durable.Keeps P (marked h draw own seen) := keeps_marked hP
  refine .bind .journal fun files => ?_
  split
  · split
    · exact .pure _
    · rename_i v
      refine .ite (.pure _) (.bind (keeps_commit hP fun _ => .other _ ?_ ?_ ?_) fun _ =>
        .bind (keeps_mark href hP hapart v) fun _ => .pure _)
      · simpa [names] using hapart.ne.symm
      · simpa [names] using (reference_ne_dotted hother (head_markerName ref)).symm
      · simpa [names] using (reference_ne_dotted hother head_keyName).symm
  · rename_i own _
    split
    · exact keeps_unsourced hP own _ other rep
    · rename_i v
      refine .ite (.bind (hmarked own _) fun _ => .ite (.pure _)
        (.bind (keeps_mark href hP hapart own) fun _ => .pure _))
        (.bind (hmarked own _) fun _ => .ite ?_ (.pure _))
      refine .bind (keeps_replacePrivate href hP v hapart.ne ?_ ?_ hapart.value) fun _ =>
        .bind (keeps_mark href hP hapart v) fun _ => .pure _
      · exact (reference_ne_dotted hother (head_markerName ref)).symm
      · exact (reference_ne_dotted hother head_keyName).symm

end Programs

/-! ## Whole runs of the program -/

section Runs

variable {P : FileProc → Prop} {draw : Draw}
variable {values : String → Option Bytes} {refs : List String}
variable (href : isReference ref = true)
variable (hlen : ∀ v, values ref = some v → v.length ≤ secretLimit)
variable (hrefs : ∀ other ∈ refs, isReference other = true ∧ (other ≠ ref → Apart ref other))

include href hlen hrefs in
theorem keeps_provisionAll (hP : Closed h ref (values ref) P) (rep : Report) :
    Durable.Keeps P (provisionAll h draw values refs rep) := by
  induction refs generalizing rep with
  | nil => exact .pure _
  | cons other refs ih =>
    have hrest := ih fun o ho => hrefs o (mem_cons_of_mem _ ho)
    obtain ⟨hother, hapart⟩ := hrefs other mem_cons_self
    refine .bind ?_ fun rep => hrest rep
    by_cases heq : other = ref
    · subst heq
      intro p hp
      refine wp_mono (wp_provision href hP hlen rep hp) ?_
      rintro r p' ⟨hr, hf, -⟩
      exact ⟨hr, hf⟩
    · exact keeps_provision href hP hother (hapart heq) _ rep

theorem closed_of_effect {K : SecretFiles → Prop} (href : isReference ref = true)
    (hK : ∀ {d d'}, Effect h ref source d d' → K d → K d') :
    Closed h ref source fun p => Readable p.journal ∧ K p.journal where
  commit _ _ hp hop :=
    have he := rule_effect href hop
    ⟨effect_readable he hp.1, hK he hp.2⟩
  readable _ hp := hp.1

include href hlen hrefs in
/-- A run that comes to its end with the reference in it leaves the copy equal to the fleet's value. -/
theorem provisionAll_reads (hmem : ref ∈ refs) (hsource : values ref ≠ none) (rep : Report)
    (hp : Readable p.journal ∧ Kept h ref (values ref) p.journal) :
    wp (provisionAll h draw values refs rep)
      (fun _ p' => read p'.journal ref = values ref) p := by
  have hclosed := closed_of_effect (h := h) href (effect_kept hlen)
  induction refs generalizing rep p with
  | nil => cases hmem
  | cons other refs ih =>
    have hrest := fun o ho => hrefs o (mem_cons_of_mem other ho)
    obtain ⟨hother, hapart⟩ := hrefs other mem_cons_self
    simp only [provisionAll, wp_bind]
    by_cases heq : other = ref
    · subst heq
      refine wp_mono (wp_provision href hclosed hlen rep hp) ?_
      rintro _ p₁ ⟨⟨rep₁, rfl⟩, hp₁, hread⟩
      -- from here on the copy equals the fleet's value, and the rule keeps it so
      refine wp_mono (keeps_provisionAll href hlen hrest
        (closed_of_effect href (effect_equal hlen)) rep₁ p₁ ⟨hp₁.1, hread hp.2 hsource⟩) ?_
      rintro _ p₂ ⟨-, -, heq⟩
      exact heq
    · have hmem' : ref ∈ refs := (mem_cons.mp hmem).resolve_left fun he => heq he.symm
      refine wp_mono (keeps_provision href hclosed hother (hapart heq) _ rep p hp) ?_
      rintro _ p₁ ⟨⟨rep₁, rfl⟩, hp₁⟩
      exact ih hrest hmem' rep₁ hp₁

end Runs

/-! ## Sites -/

/-- The names of the configuration's other references are apart from this one's. -/
def AgentConfig.Apart (c : AgentConfig) (ref : String) : Prop :=
  ∀ other ∈ c.references, other ≠ ref → Fleet.Apart ref other

theorem isReference_of_mem {c : AgentConfig} {ref : String} (h : ref ∈ c.references) :
    isReference ref = true := by
  have hmem := (mergeSort_perm _ _).mem_iff.mp h
  exact (mem_filter.mp (mem_dedup.mp hmem)).2

theorem length_value {store : Option SecretFiles} {ref : String} {v : Bytes}
    (h : value store ref = some v) : v.length ≤ secretLimit := by
  obtain ⟨d, -, hd⟩ := bind_eq_some_iff.mp h
  exact length_of_read hd

namespace Site

variable {s : Site} {config : AgentConfig} {draw : Draw}

theorem operations_spec {Q : FileProc → Prop}
    (hQ : wp (provisionSecrets h draw s.source config) (fun _ p => Q p) ⟨(), s.agent, []⟩) :
    ∃ p, p.written = s.operations h config draw ∧ Q p := by
  unfold operations
  unfold wp at hQ
  split at hQ <;> rename_i heq <;> rw [heq] <;> exact ⟨_, rfl, hQ⟩

theorem provision_follows (href : isReference ref = true) (happart : config.Apart ref)
    (hd : Readable s.agent) : wp (provisionSecrets h draw s.source config)
      (fun _ p => Follows (Rule h ref (s.source ref)) s.agent p) ⟨(), s.agent, []⟩ := by
  have hclosed : Closed h ref (s.source ref)
      fun p => Follows (Rule h ref (s.source ref)) s.agent p ∧ Readable p.journal :=
    ⟨fun _ _ hp hop => ⟨hp.1.commit hop, effect_readable (rule_effect href hop) hp.2⟩,
      fun _ hp => hp.2⟩
  refine wp_mono (keeps_provisionAll href (fun _ hv => length_value hv)
    (fun other ho => ⟨isReference_of_mem ho, happart other ho⟩) hclosed {} ⟨(), s.agent, []⟩
    ⟨.start _ _ _, hd⟩) ?_
  rintro r p ⟨-, hp, -⟩
  exact hp

/-- What every effect keeps, a run of the program keeps, wherever it is killed. -/
theorem provision_keeps {K : SecretFiles → Prop} (href : isReference ref = true)
    (happart : config.Apart ref) (hd : Readable s.agent)
    (hK : ∀ d d', Effect h ref (s.source ref) d d' → K d → K d') (hs : K s.agent)
    (crash : Option Nat) : K (s.step h (.provision config draw crash)).agent := by
  have hperm : Permits (Rule h ref (s.source ref)) s.agent (s.operations h config draw) := by
    obtain ⟨p, hw, hp⟩ := operations_spec (provision_follows href happart hd)
    exact hw ▸ hp.permitted
  have hstep : ∀ d op, K d → Rule h ref (s.source ref) d op → K (Replay.apply d op) :=
    fun d _ hd hop => hK d _ (rule_effect href hop) hd
  cases crash with
  | none => exact hperm.replay hstep hs
  | some k => exact (hperm.take k).replay hstep hs

theorem provision_source (s : Site) (h : Hmac) (config : AgentConfig) (draw : Draw)
    (crash : Option Nat) : (s.step h (.provision config draw crash)).source = s.source := by
  cases crash <;> rfl

theorem provision_reads (href : isReference ref = true) (happart : config.Apart ref)
    (hmem : ref ∈ config.references) (hd : Readable s.agent)
    (hkept : Kept h ref (s.source ref) s.agent) (hsource : s.source ref ≠ none) :
    read (s.step h (.provision config draw none)).agent ref = s.source ref := by
  have hrun : wp (provisionSecrets h draw s.source config) (fun _ p =>
      Follows (Rule h ref (s.source ref)) s.agent p ∧ read p.journal ref = s.source ref)
      ⟨(), s.agent, []⟩ :=
    wp_and (provision_follows href happart hd) (provisionAll_reads href (fun _ hv => length_value hv)
      (fun other ho => ⟨isReference_of_mem ho, happart other ho⟩) hmem hsource {} ⟨hd, hkept⟩)
  obtain ⟨p, hw, hp, hread⟩ := operations_spec hrun
  rw [← hread, hp.replayed, hw]
  rfl

end Site

/-! ## Runs -/

/-- The fleet's value changes only while the copy is absent, marked, or the new value already; and
nothing but the program writes the agent's store. -/
def Steady (h : Hmac) (ref : String) (s : Site) : Action → Prop
  | .supply fleet => value fleet ref = none ∨ s.agent.get? ref = none ∨ Marked h ref s.agent ∨
      read s.agent ref = value fleet ref
  | .provision config _ _ => config.Apart ref
  | .place _ _ _ => False

/-- The configurations' other references have names apart from this one's, and the fleet never has
the value `v`. -/
def Foreign (ref : String) (v : Bytes) : Action → Prop
  | .supply fleet => value fleet ref ≠ some v
  | .provision config _ _ => config.Apart ref
  | .place _ _ _ => True

theorem steady_step (href : isReference ref = true) {s : Site} {a : Action}
    (hs : Readable s.agent ∧ Kept h ref (s.source ref) s.agent) (ha : Steady h ref s a) :
    Readable (s.step h a).agent ∧ Kept h ref ((s.step h a).source ref) (s.step h a).agent := by
  cases a with
  | supply fleet => exact ⟨hs.1, hs.2.copy, ha⟩
  | provision config draw crash =>
    rw [provision_source]
    exact ⟨provision_keeps href ha hs.1 (fun _ _ he hd => effect_readable he hd) hs.1 crash,
      provision_keeps href ha hs.1
        (fun _ _ he hd => effect_kept (fun _ hv => length_value hv) he hd) hs.2 crash⟩
  | place _ _ _ => exact absurd ha id

/-- What of a site a value placed by hand rests on: every marker is that of a value the fleet had. -/
structure Marks (h : Hmac) (ref : String) (values : Bytes → Prop) (s : Site) : Prop where
  readable : Readable s.agent
  sourced : Sourced h ref values s.agent
  source : ∀ w, s.source ref = some w → values w

/-- The fleet's values are among `values`, and the configurations' names apart. -/
def Supplies (ref : String) (values : Bytes → Prop) : Action → Prop
  | .supply fleet => ∀ w, value fleet ref = some w → values w
  | .provision config _ _ => config.Apart ref
  | .place _ _ _ => True

theorem get?_place {s : Site} {other name : String} {valid : isReference other = true}
    {f : SecretFile} (hname : name.toList.head? = some '.') :
    (s.step h (.place other valid f)).agent.get? name = s.agent.get? name :=
  Dict.get?_set_ne _ _ (reference_ne_dotted valid hname).symm

theorem marks_step (href : isReference ref = true) {s : Site} {a : Action} {values : Bytes → Prop}
    (hs : Marks h ref values s) (ha : Supplies ref values a) : Marks h ref values (s.step h a) := by
  cases a with
  | supply fleet => exact ⟨hs.readable, hs.sourced, ha⟩
  | provision config draw crash =>
    refine ⟨?_, ?_, by rw [provision_source]; exact hs.source⟩
    · exact provision_keeps href ha hs.readable (fun _ _ he hd => effect_readable he hd)
        hs.readable crash
    · exact provision_keeps href ha hs.readable
        (fun _ _ he hd => effect_sourced hs.source he hd) hs.sourced crash
  | place other valid f =>
    have hkey : (s.step h (.place other valid f)).agent.get? keyName = s.agent.get? keyName :=
      get?_place head_keyName
    refine ⟨?_, fun m hm => ?_, hs.source⟩
    · rw [Readable, hkey, read_congr hkey]
      exact hs.readable
    · obtain ⟨k, w, hk, hmw, hw⟩ := hs.sourced m
        ((read_congr (get?_place (head_markerName ref))).symm.trans hm)
      exact ⟨k, w, (read_congr hkey).trans hk, hmw, hw⟩

structure Holds (h : Hmac) (ref : String) (values : Bytes → Prop) (f : SecretFile) (s : Site) :
    Prop where
  marks : Marks h ref values s
  copy : Unlike h values f.data s.agent → s.agent.get? ref = some f

theorem holds_step (href : isReference ref = true) {s : Site} {a : Action} {values : Bytes → Prop}
    {f : SecretFile} (hs : Holds h ref values f s) (ha : Supplies ref values a)
    (hnot : ∀ f' valid, a ≠ .place ref valid f') : Holds h ref values f (s.step h a) := by
  refine ⟨marks_step href hs.marks ha, ?_⟩
  cases a with
  | supply fleet => exact hs.copy
  | provision config draw crash =>
    have hkeep : ∀ d d', Effect h ref (s.source ref) d d' →
        Sourced h ref values d ∧ (Unlike h values f.data d → d.get? ref = some f) →
        Sourced h ref values d' ∧ (Unlike h values f.data d' → d'.get? ref = some f) :=
      fun _ _ he hd => ⟨effect_sourced hs.marks.source he hd.1, fun hnew =>
        have hold := effect_unlike he hnew
        effect_held hold he hd.1 (hd.2 hold)⟩
    exact (provision_keeps href ha hs.marks.readable hkeep ⟨hs.marks.sourced, hs.copy⟩ crash).2
  | place other valid f' =>
    intro hnew
    have hkey : (s.step h (.place other valid f')).agent.get? keyName = s.agent.get? keyName :=
      get?_place head_keyName
    have hne : ref ≠ other := by
      rintro rfl
      exact hnot f' valid rfl
    exact (Dict.get?_set_ne _ _ hne).trans
      (hs.copy fun k w hk => hnew k w ((read_congr hkey).trans hk))

/-- Over every run. First: where nothing but the program writes the agent's store and the fleet's
value changes only while the copy is absent, marked or already the new value, a run to its end leaves
the copy equal to the fleet's value. Second: a value placed by hand that the fleet never has, and
whose marker under the store's key is that of no value the fleet had, is not changed by any later
run. -/
theorem copy_follows_source (h : Hmac) (ref : String) (href : isReference ref = true) :
    (∀ (as : List Action) (config : AgentConfig) (draw : Draw),
      Meets (Site.step h) (Steady h ref) {} as → config.Apart ref → ref ∈ config.references →
      (Site.run h {} as).source ref ≠ none →
      read ((Site.run h {} as).step h (.provision config draw none)).agent ref =
        (Site.run h {} as).source ref) ∧
    ∀ (before after : List Action) (f : SecretFile),
      (∀ a ∈ before ++ after, Foreign ref f.data a) →
      (∀ f' valid, .place ref valid f' ∉ after) →
      (∀ k v, read (Site.run h {} (before ++ .place ref href f :: after)).agent keyName = some k →
        (∃ fleet, .supply fleet ∈ before ++ after ∧ value fleet ref = some v) →
        h.digest k v = h.digest k f.data → v = f.data) →
      (Site.run h {} (before ++ .place ref href f :: after)).agent.get? ref = some f := by
  have hempty : Readable ({} : Site).agent := fun hne => absurd rfl hne
  constructor
  · intro as config draw hmeets happart hmem hsource
    have hstart : Kept h ref (({} : Site).source ref) ({} : Site).agent :=
      ⟨fun hne => absurd rfl hne, .inl rfl⟩
    obtain ⟨hread, hkept⟩ := runs_invariant
      (P := fun s => Readable s.agent ∧ Kept h ref (s.source ref) s.agent)
      (fun _ _ hs ha => steady_step href hs ha) hmeets ⟨hempty, hstart⟩
    exact provision_reads href happart hmem hread hkept hsource
  · intro before after f hforeign hnot hdigest
    let values : Bytes → Prop :=
      fun w => w ≠ f.data ∧ ∃ fleet, .supply fleet ∈ before ++ after ∧ value fleet ref = some w
    have hsupplies : ∀ a ∈ before ++ after, Supplies ref values a := by
      intro a ha
      have hfa := hforeign a ha
      cases a with
      | supply fleet => exact fun w hw => ⟨fun heq => hfa (heq ▸ hw), fleet, ha, hw⟩
      | provision config draw crash => exact hfa
      | place _ _ _ => trivial
    have hstart : Marks h ref values {} := ⟨hempty, (fun m hm => nomatch hm), nofun⟩
    have hbefore : Marks h ref values (run h {} before) :=
      runs_invariant (fun _ _ hs ha => marks_step href hs ha)
        (.of_mem (fun a ha => hsupplies a (mem_append_left _ ha)) _) hstart
    have hplaced : Holds h ref values f ((run h {} before).step h (.place ref href f)) :=
      ⟨marks_step href hbefore trivial, fun _ => Dict.get?_set_self _ ref f⟩
    have hlater : ∀ a ∈ after, Supplies ref values a ∧ ∀ f' valid, a ≠ .place ref valid f' :=
      fun a ha => ⟨hsupplies a (mem_append_right _ ha),
        fun f' valid heq => hnot f' valid (heq ▸ ha)⟩
    have hafter := runs_invariant (fun _ _ hs ha => holds_step href hs ha.1 ha.2)
      (.of_mem hlater _) hplaced
    rw [run, runs, foldl_append] at hdigest ⊢
    exact hafter.copy fun k w hk hw heq => hw.1 (hdigest k w hk hw.2 heq)

def bytesOf (s : String) : Bytes := s.toList.map fun c => c.toNat.toUInt8

def sampleDraw : Draw := ⟨List.replicate 32 0, length_replicate⟩

/-- HMAC-SHA256 under a key of 32 zero bytes, at the values `a` and `b`. -/
def sampleHmac : Hmac where
  digest _ v :=
    if v = bytesOf "a" then
      bytesOf "9615a95d4a336118c435b9cd54c5e8644ab956b573aa2926274a1280b6674713"
    else if v = bytesOf "b" then
      bytesOf "6303a85bb6ce539d45aac0daf7cde7a248051feb5ac86499ca4f5159e2886ea2"
    else List.replicate 64 48
  length_digest _ v := by
    split
    · decide +kernel
    · split
      · decide +kernel
      · exact length_replicate

def sampleConfig : AgentConfig := { secretRef := some "psk" }

def having (v : String) : Action := .supply (some (Dict.set ∅ "psk" ⟨bytesOf v, true⟩))

theorem sampleConfig_apart : sampleConfig.Apart "psk" := by
  intro other ho hne
  rw [show sampleConfig.references = ["psk"] by simp [AgentConfig.references]; decide +kernel,
    mem_singleton] at ho
  exact absurd ho hne

theorem copy_replaced_and_kept :
    read (Site.run sampleHmac {} [having "a", .provision sampleConfig sampleDraw none, having "b",
      .provision sampleConfig sampleDraw none]).agent "psk" = some (bytesOf "b") ∧
    (Site.run sampleHmac {} [having "a", .provision sampleConfig sampleDraw none,
      .place "psk" (by decide +kernel) ⟨bytesOf "b", true⟩, having "a",
      .provision sampleConfig sampleDraw none]).agent.get? "psk" = some ⟨bytesOf "b", true⟩ := by
  obtain ⟨hfirst, hsecond⟩ := copy_follows_source sampleHmac "psk" (by decide +kernel)
  constructor
  · refine (hfirst [having "a", .provision sampleConfig sampleDraw none, having "b"] sampleConfig
      sampleDraw ⟨.inr (.inl rfl), sampleConfig_apart, .inr (.inr (.inl ⟨sampleDraw.bytes,
        bytesOf "a", ?_, ?_, ?_⟩)), trivial⟩
      sampleConfig_apart ?_ ?_).trans ?_
    all_goals decide +kernel
  · refine hsecond [having "a", .provision sampleConfig sampleDraw none]
      [having "a", .provision sampleConfig sampleDraw none] ⟨bytesOf "b", true⟩ ?_ ?_ ?_
    · intro a ha
      simp only [cons_append, nil_append, mem_cons, not_mem_nil, or_false] at ha
      rcases ha with rfl | rfl | rfl | rfl
      · show value _ "psk" ≠ some _
        decide +kernel
      · exact sampleConfig_apart
      · show value _ "psk" ≠ some _
        decide +kernel
      · exact sampleConfig_apart
    · simp [having]
    · rintro k v - - heq
      simp only [sampleHmac] at heq
      split at heq
      · exact absurd heq (by decide +kernel)
      · split at heq
        · assumption
        · exact absurd heq (by decide +kernel)

/-- Killed between the copy and its marker, the program leaves a copy it takes for one placed by
hand: when the fleet's value then changes, a run to its end leaves the old value. -/
theorem unmarked_copy_goes_stale :
    read (Site.run sampleHmac {} [having "a", .provision sampleConfig sampleDraw (some 1), having "b",
      .provision sampleConfig sampleDraw none]).agent "psk" = some (bytesOf "a") ∧
    (Site.run sampleHmac {} [having "a", .provision sampleConfig sampleDraw (some 1), having "b",
      .provision sampleConfig sampleDraw none]).source "psk" = some (bytesOf "b") := by
  decide +kernel

end Emosa.Fleet
