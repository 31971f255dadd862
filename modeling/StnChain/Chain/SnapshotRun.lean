import StnChain.Chain.Snapshots

/-!
# Runs over contract snapshots

Snapshots are created, cloned, shared, registered to, voted and acted on, and released, in
any order.  At all times the entries of a snapshot borrow from its own draft buffer what was
registered for them, and a step changes the content of one snapshot at most
(`snapshot_integrity`).
-/

namespace StnChain

open Allocations

section

variable [Primitives]

/-! ## Calls -/

/-- A call on the snapshots, with the answers of the allocator where it asks for memory. -/
inductive SnapshotCall
  | create (allocates : Bool)
  | clone (a : ℕ) (allocates allocatesDrafts : Bool)
  | share (a : ℕ)
  | release (a : ℕ)
  | register (a : ℕ) (canonicalDraft : Bytes) (allocates : Bool)
  | vote (a index : ℕ) (canonicalCurrent : Bytes) (p : Pointer) (sequence : UInt64)
      (actor : Octets 32)
  | act (a index : ℕ) (canonicalCurrent : Option Bytes) (p : Pointer) (action : ContractAction)
      (sequence : UInt64)
  | apply (a : ℕ) (lifecycle : LifecycleState) (tx : Transaction) (provider : HashProvider)
      (p : Pointer) (allocates : Bool)

/-- What a call answers. -/
inductive SnapshotReply
  | address (a : Option ℕ)
  | released
  | registered (r : Except ContractStatus ℕ)
  | stored (r : Except ContractStatus Unit)
  | applied (r : Except DataStatus Unit)

/-- A call and what it leaves. -/
def SnapshotCall.perform (w : SnapshotWorld) : SnapshotCall → SnapshotReply × SnapshotWorld
  | create allocates => (w.snapshotCreate allocates).map .address id
  | clone a allocates allocatesDrafts =>
      (w.snapshotClone a allocates allocatesDrafts).map .address id
  | share a => (w.snapshotShare a).map .address id
  | release a => (.released, w.snapshotRelease a)
  | register a canonicalDraft allocates =>
      (w.snapshotRegister a canonicalDraft allocates).map .registered id
  | vote a index canonicalCurrent p sequence actor =>
      (w.stateApplyVote a index canonicalCurrent p sequence actor).map .stored id
  | act a index canonicalCurrent p action sequence =>
      (w.storeApplyAction a index canonicalCurrent p action sequence).map .stored id
  | apply a lifecycle tx provider p allocates =>
      (w.applyTransactionAt a lifecycle tx provider p allocates).map .applied id

/-- The snapshot whose content a call may change. -/
def SnapshotCall.target : SnapshotCall → Option ℕ
  | create _ | clone .. | share _ => none
  | release a | register a .. | vote a .. | act a .. | apply a .. => some a

/-- The drafts registered in each snapshot after a call.  A clone starts with those of its
source. -/
def SnapshotCall.registers (call : SnapshotCall) (reply : SnapshotReply)
    (drafts : ℕ → List Bytes) : ℕ → List Bytes :=
  match call, reply with
  | create _, .address (some b) => Function.update drafts b []
  | clone a _ _, .address (some b) => Function.update drafts b (drafts a)
  | register a canonicalDraft _, .registered (.ok _) =>
      Function.update drafts a (drafts a ++ [canonicalDraft])
  | apply a _ tx _ _ _, .applied (.ok ()) =>
      match contractTransactionDecode tx.record with
      | .error _ => drafts
      | .ok action =>
          if action.action = .create then
            Function.update drafts a (drafts a ++ [action.canonicalContract])
          else drafts
  | _, _ => drafts

/-- The worlds that calls lead to, with the drafts registered on the way. -/
inductive SnapshotRun : SnapshotWorld → (ℕ → List Bytes) → Prop
  | empty : SnapshotRun .empty fun _ => []
  | call {w : SnapshotWorld} {drafts : ℕ → List Bytes} (call : SnapshotCall) :
      SnapshotRun w drafts →
      SnapshotRun (call.perform w).2 (call.registers (call.perform w).1 drafts)

/-! ## Drafts by value -/

/-- The drafts of a snapshot by value. -/
def ContractSnapshot.drafts (s : ContractSnapshot) : List Bytes :=
  s.state.entries.map ContractStateEntry.canonicalDraft

omit [Primitives] in
theorem setCurrent_drafts {state : ContractStateStore} {index : ℕ} {entry : ContractStateEntry}
    (hentry : state.entries[index]? = some entry) (next : Contract) :
    ContractSnapshot.drafts ⟨setCurrent state index entry next⟩ =
      ContractSnapshot.drafts ⟨state⟩ :=
  Regions.map_set_of_eq hentry rfl

theorem contractStateApplyVote_drafts {state state' : ContractStateStore} {index : ℕ}
    {canonicalCurrent : Bytes} {sequence : UInt64} {actor : Octets 32}
    (h : contractStateApplyVote state index canonicalCurrent sequence actor = .ok state') :
    ContractSnapshot.drafts ⟨state'⟩ = ContractSnapshot.drafts ⟨state⟩ := by
  simp only [contractStateApplyVote] at h
  split at h
  · cases h
  next entry hentry =>
  split at h
  · cases h
  split at h
  · cases h
  split at h
  · cases h
  split at h
  · cases h
  rw [← Except.ok.inj h]
  exact Regions.map_set_of_eq hentry rfl

theorem registerValue_drafts {s s' : ContractSnapshot} {canonicalDraft : Bytes}
    (hbind : contractSnapshotBind s = some s)
    (h : SnapshotWorld.registerValue canonicalDraft s = .ok s') :
    s'.drafts = s.drafts ++ [canonicalDraft] := by
  obtain ⟨⟨t, index⟩, hregister, rfl⟩ := map_eq_ok h
  simp only [contractSnapshotRegister, hbind] at hregister
  split at hregister
  · cases hregister
  split at hregister
  · cases hregister
  next state _ hstate =>
  obtain ⟨entry, _, _, -, hdraft, -, -, -, -, -, hentries⟩ := contractStateRegister_eq_ok hstate
  rw [← (Prod.mk.inj (Except.ok.inj hregister)).1, hentries]
  simp only [ContractSnapshot.drafts, List.map_append, List.map_cons, List.map_nil, hdraft]

theorem contractApplyTransaction_drafts {s s' : ContractSnapshot} {lifecycle : LifecycleState}
    {tx : Transaction} {provider : HashProvider}
    (h : contractApplyTransaction s lifecycle tx provider = .ok s') :
    s'.drafts = s.drafts ∧ ∀ action, contractTransactionDecode tx.record = .ok action →
      action.action ≠ .create := by
  have hother : ∀ action, contractTransactionDecode tx.record = .ok action →
      action.action ≠ .create := by
    intro action hdecode hcreate
    rw [contractApplyTransaction_create hdecode hcreate] at h
    cases h
  refine ⟨?_, hother⟩
  rw [contractApplyTransaction] at h
  split at h
  · cases h
  next action hdecode =>
  rw [if_neg (hother action hdecode)] at h
  split at h
  · cases h
  next index entry hlineage =>
  have hentry : s.state.entries[index]? = some entry := by
    rw [lineageEntry] at hlineage
    split at hlineage
    · cases hlineage
    next found _ =>
    obtain ⟨entry', hentry', hpair⟩ := Option.map_eq_some_iff.mp hlineage
    obtain ⟨rfl, rfl⟩ := Prod.mk.inj hpair
    exact hentry'
  split at h
  · cases h
  split at h
  · cases h
  split at h
  · cases h
  split at h
  · split at h
    · cases h
    next state hvote =>
    rw [← Except.ok.inj h]
    exact contractStateApplyVote_drafts hvote
  · split at h
    · cases h
    rw [← Except.ok.inj h]
    exact setCurrent_drafts hentry _

theorem contractPerform_act_drafts {state state' : ContractStateStore} {index : ℕ}
    {canonicalCurrent : Option Bytes} {action : ContractAction} {sequence : UInt64}
    (h : contractPerform state (.act index canonicalCurrent action sequence) = .ok state') :
    ContractSnapshot.drafts ⟨state'⟩ = ContractSnapshot.drafts ⟨state⟩ := by
  rw [contractPerform] at h
  split at h
  · cases h
  split at h
  · cases h
  next entry hentry =>
  split at h
  · cases h
  split at h
  · cases h
  rw [← Except.ok.inj h]
  exact setCurrent_drafts hentry _

/-! ## Runs -/

/-- A sound world whose snapshots have the drafts that were registered in them. -/
structure Tracked (w : SnapshotWorld) (values : ℕ → Option ContractSnapshot)
    (drafts : ℕ → List Bytes) : Prop where
  sound : w.Sound values
  drafts : ∀ a s, values a = some s → s.drafts = drafts a

section

variable {w : SnapshotWorld} {values : ℕ → Option ContractSnapshot} {drafts : ℕ → List Bytes}

omit [Primitives] in
theorem Tracked.update {w' : SnapshotWorld} {a : ℕ} {s : ContractSnapshot}
    (h : Tracked w values drafts) (hsound : w'.Sound (Function.update values a (some s))) :
    Tracked w' (Function.update values a (some s)) (Function.update drafts a s.drafts) := by
  refine ⟨hsound, ?_⟩
  intro b t ht
  by_cases hb : b = a
  · subst hb
    rw [Function.update_self] at ht
    rw [Function.update_self, Option.some.inj ht]
  · rw [Function.update_of_ne hb] at ht
    rw [Function.update_of_ne hb]
    exact h.drafts b t ht

omit [Primitives] in
/-- A call on one snapshot leaves the others, and all of them when it fails. -/
theorem Tracked.performs {ε β : Type} {a : ℕ}
    {operation : ContractSnapshot → Except ε ContractSnapshot} {r : Except ε β × SnapshotWorld}
    (h : Tracked w values drafts) (drafts' : ℕ → List Bytes)
    (hr : SnapshotWorld.Performs values a operation r)
    (hfailed : ∀ status, r.1 = .error status → drafts' = drafts)
    (hdone : ∀ s s' result, w.Sound values → values a = some s → operation s = .ok s' →
      r.1 = .ok result → drafts' = Function.update drafts a s'.drafts) :
    ∃ values', Tracked r.2 values' drafts' ∧ (∀ b, b ≠ a → values' b = values b) ∧
      ∀ status, r.1 = .error status → values' a = values a := by
  rcases hr with ⟨status, hstatus, hsound⟩ | ⟨s, s', result, hs, hs', hresult, hsound⟩
  · refine ⟨values, ⟨hsound, ?_⟩, fun _ _ => rfl, fun _ _ => rfl⟩
    rw [hfailed status hstatus]
    exact h.drafts
  · refine ⟨Function.update values a (some s'), ?_, fun b hb => Function.update_of_ne hb .., ?_⟩
    · rw [hdone s s' result h.sound hs hs' hresult]
      exact h.update hsound
    · intro status hstatus
      rw [hresult] at hstatus
      cases hstatus

omit [Primitives] in
/-- Storing what keeps the drafts. -/
theorem Tracked.unchanged {a : ℕ} {s s' : ContractSnapshot} (h : Tracked w values drafts)
    (hs : values a = some s) (hkept : s'.drafts = s.drafts) :
    drafts = Function.update drafts a s'.drafts := by
  rw [hkept, h.drafts a s hs, Function.update_eq_self]

theorem Tracked.call (h : Tracked w values drafts) (call : SnapshotCall) :
    ∃ values', Tracked (call.perform w).2 values'
        (call.registers (call.perform w).1 drafts) ∧
      ∀ a, call.target ≠ some a → w.snapshots a ≠ none → values' a = values a := by
  have htarget {a : ℕ} {values' : ℕ → Option ContractSnapshot}
      (helse : ∀ b, b ≠ a → values' b = values b) (b : ℕ) (hb : some a ≠ some b) :
      values' b = values b :=
    helse b fun heq => hb (by rw [heq])
  cases call with
  | create allocates =>
      have hcreated := SnapshotWorld.snapshotCreate_sound h.sound allocates
      simp only [SnapshotCall.perform, Prod.map, id]
      cases hmade : (w.snapshotCreate allocates).1 with
      | none =>
          rw [hmade] at hcreated
          exact ⟨values, ⟨hcreated, h.drafts⟩, fun _ _ _ => rfl⟩
      | some b =>
          rw [hmade] at hcreated
          obtain ⟨hnew, hsound⟩ := hcreated
          refine ⟨_, h.update hsound, ?_⟩
          intro a _ ha
          apply Function.update_of_ne
          intro heq
          exact ha (heq ▸ hnew)
  | clone a allocates allocatesDrafts =>
      have hcloned := SnapshotWorld.snapshotClone_sound h.sound a allocates allocatesDrafts
      simp only [SnapshotCall.perform, Prod.map, id]
      cases hmade : (w.snapshotClone a allocates allocatesDrafts).1 with
      | none =>
          rw [hmade] at hcloned
          exact ⟨values, ⟨hcloned, h.drafts⟩, fun _ _ _ => rfl⟩
      | some b =>
          rw [hmade] at hcloned
          obtain ⟨hsource, hnew, hsound⟩ := hcloned
          obtain ⟨o, ho⟩ := Option.ne_none_iff_exists'.mp hsource
          obtain ⟨s, hs, -⟩ := h.sound.represents a o ho
          rw [hs] at hsound
          simp only [SnapshotCall.registers]
          rw [← h.drafts a s hs]
          refine ⟨_, h.update hsound, ?_⟩
          intro c _ hc
          apply Function.update_of_ne
          intro heq
          exact hc (heq ▸ hnew)
  | share a =>
      exact ⟨values, ⟨SnapshotWorld.snapshotShare_sound h.sound a, h.drafts⟩, fun _ _ _ => rfl⟩
  | release a =>
      have hreleased := SnapshotWorld.snapshotRelease_sound h.sound a
      simp only [SnapshotCall.perform]
      split at hreleased
      · refine ⟨_, ⟨hreleased, ?_⟩, ?_⟩
        · intro b s hs
          by_cases hb : b = a
          · rw [hb, Function.update_self] at hs
            cases hs
          · rw [Function.update_of_ne hb] at hs
            exact h.drafts b s hs
        · intro b hb _
          exact Function.update_of_ne (fun heq => hb (by rw [heq]; rfl)) ..
      · exact ⟨values, ⟨hreleased, h.drafts⟩, fun _ _ _ => rfl⟩
  | register a canonicalDraft allocates =>
      obtain ⟨values', htracked, helse, -⟩ := h.performs
        (SnapshotCall.registers (.register a canonicalDraft allocates)
          (SnapshotCall.perform w (.register a canonicalDraft allocates)).1 drafts)
        (SnapshotWorld.snapshotRegister_performs h.sound a canonicalDraft allocates)
        (by
          intro status hstatus
          simp only [SnapshotCall.perform, Prod.map, hstatus, SnapshotCall.registers])
        (by
          intro s s' index hsound hs hs' hindex
          simp only [SnapshotCall.perform, Prod.map, hindex, SnapshotCall.registers]
          rw [registerValue_drafts (hsound.bind_eq hs) hs', h.drafts a s hs])
      exact ⟨values', htracked, fun b hb _ => htarget helse b hb⟩
  | vote a index canonicalCurrent p sequence actor =>
      obtain ⟨values', htracked, helse, -⟩ := h.performs drafts
        (SnapshotWorld.stateApplyVote_performs h.sound a index canonicalCurrent p sequence actor)
        (fun _ _ => rfl)
        (by
          intro s s' _ _ hs hs' _
          apply h.unchanged hs
          obtain ⟨state, hstate, rfl⟩ := map_eq_ok hs'
          exact contractStateApplyVote_drafts hstate)
      refine ⟨values', ?_, fun b hb _ => htarget helse b hb⟩
      exact htracked
  | act a index canonicalCurrent p action sequence =>
      obtain ⟨values', htracked, helse, -⟩ := h.performs drafts
        (SnapshotWorld.storeApplyAction_performs h.sound a index canonicalCurrent p action
          sequence)
        (fun _ _ => rfl)
        (by
          intro s s' _ _ hs hs' _
          apply h.unchanged hs
          obtain ⟨state, hstate, rfl⟩ := map_eq_ok hs'
          exact contractPerform_act_drafts hstate)
      exact ⟨values', htracked, fun b hb _ => htarget helse b hb⟩
  | apply a lifecycle tx provider p allocates =>
      obtain ⟨values', htracked, helse, -⟩ := h.performs
        (SnapshotCall.registers (.apply a lifecycle tx provider p allocates)
          (SnapshotCall.perform w (.apply a lifecycle tx provider p allocates)).1 drafts)
        (SnapshotWorld.applyTransactionAt_performs h.sound a lifecycle tx provider p allocates)
        (by
          intro status hstatus
          simp only [SnapshotCall.perform, Prod.map, hstatus, SnapshotCall.registers])
        (by
          intro s s' _ _ hs hs' hresult
          obtain ⟨hkept, hother⟩ := contractApplyTransaction_drafts hs'
          rw [← h.unchanged hs hkept]
          simp only [SnapshotCall.perform, Prod.map, hresult, SnapshotCall.registers]
          split
          · rfl
          next action hdecode =>
          rw [if_neg (hother action hdecode)])
      exact ⟨values', htracked, fun b hb _ => htarget helse b hb⟩

end

theorem SnapshotRun.tracked {w : SnapshotWorld} {drafts : ℕ → List Bytes}
    (h : SnapshotRun w drafts) : ∃ values, Tracked w values drafts := by
  induction h with
  | empty => exact ⟨_, SnapshotWorld.sound_empty, nofun⟩
  | call call _ ih =>
      obtain ⟨values, hvalues⟩ := ih
      obtain ⟨values', hvalues', -⟩ := hvalues.call call
      exact ⟨values', hvalues'⟩

/-! ## Integrity -/

/-- A span of so many octets lies in the draft of an entry. -/
def EntryRecord.Spans (e : EntryRecord) (p : Pointer) (length : ℕ) : Prop :=
  p.block = e.canonicalDraft.block ∧ e.canonicalDraft.offset ≤ p.offset ∧
    p.offset + length ≤ e.canonicalDraft.offset + e.canonicalDraftLength

/-- An entry points into its snapshot's draft buffer, where its registered draft is; its
participants and terms are those of that draft. -/
structure EntryRecord.Owned (m : Memory UInt8) (o : SnapshotRecord) (e : EntryRecord)
    (draft : Bytes) : Prop where
  block : o.draftBytes = some e.canonicalDraft.block
  within : e.canonicalDraft.offset + e.canonicalDraftLength ≤ o.draftBytesLength
  held : m.read e.canonicalDraft e.canonicalDraftLength = some draft
  participants : ∀ p, e.current.participantBytes = some p →
    e.Spans p (e.current.participantCount * contractParticipantSize)
  terms : ∀ p, e.current.terms = some p → e.Spans p e.current.termsLength
  current : ∃ d, contractDecode draft = .ok d ∧
    e.current.read m = some (d.moveTo e.current.sequence e.current.state)

/-- A snapshot whose arrays and whose draft buffer are its own, and whose entries point to
what was registered. -/
structure SnapshotRecord.Intact (w : SnapshotWorld) (a : ℕ) (o : SnapshotRecord)
    (drafts : List Bytes) : Prop where
  home : o.state.home = a
  count : o.state.entryCount = o.entries.length
  entries : List.Forall₂ (EntryRecord.Owned w.memory o) o.entries drafts
  content : ∃ s, w.content a = some s ∧ s.drafts = drafts
  own : ∀ b p block, w.snapshots b = some p → o.draftBytes = some block →
    p.draftBytes = some block → b = a

omit [Primitives] in
theorem EntryRecord.At.owned {m : Memory UInt8} {o : SnapshotRecord} {octets : Bytes}
    {e : EntryRecord} {v : ContractStateEntry} (h : e.At o.draftBytes octets v)
    (hholds : BufferHolds m o.draftBytes octets) (hsize : octets.length = o.draftBytesLength) :
    e.Owned m o v.canonicalDraft := by
  obtain ⟨d, hdecode, hmoved, hview⟩ := h.current
  have hwithin := h.within
  have hread := h.read_held hholds
  have hlength : v.canonicalDraft.length = e.canonicalDraftLength := by
    rw [h.draft, List.length_take, List.length_drop]
    omega
  obtain ⟨hspan, hpacked, hterms⟩ := contractDecode_spans hdecode
  have hfields : e.current.participantCount = d.participantCount ∧
      e.current.termsLength = d.termsLength ∧
      e.current.participantBytes = d.participantBytes.map (fun _ =>
        e.canonicalDraft.advance contractHeaderSize) ∧
      e.current.terms = d.terms.map (fun _ => e.canonicalDraft.advance
        (contractHeaderSize + d.participantCount * contractParticipantSize)) := by
    rw [hview, hmoved]
    exact ⟨rfl, rfl, rfl, rfl⟩
  obtain ⟨hcount, htermsLength, hparticipants, hagreed⟩ := hfields
  constructor
  case block => exact h.block
  case within => exact hsize ▸ hwithin
  case held => exact hread
  case participants =>
    intro p hp
    rw [hparticipants] at hp
    obtain ⟨_, -, rfl⟩ := Option.map_eq_some_iff.mp hp
    rw [hcount]
    refine ⟨rfl, Nat.le_add_right _ _, ?_⟩
    simp only [Pointer.advance]
    omega
  case terms =>
    intro p hp
    rw [hagreed] at hp
    obtain ⟨_, -, rfl⟩ := Option.map_eq_some_iff.mp hp
    rw [htermsLength]
    refine ⟨rfl, Nat.le_add_right _ _, ?_⟩
    simp only [Pointer.advance]
    omega
  case current =>
    refine ⟨d, hdecode, ?_⟩
    rw [← hlength] at hread
    have hback := read_contractViewAt hread hdecode v.current.sequence v.current.state
    rw [← hmoved, ← hview] at hback
    have hplace : v.current = d.moveTo e.current.sequence e.current.state := by
      rw [hview]
      exact hmoved
    rw [hback, ← hplace]

omit [Primitives] in
theorem Tracked.intact {w : SnapshotWorld} {values : ℕ → Option ContractSnapshot}
    {drafts : ℕ → List Bytes} (h : Tracked w values drafts) {a : ℕ} {o : SnapshotRecord}
    (ho : w.snapshots a = some o) : o.Intact w a (drafts a) := by
  obtain ⟨s, hs, hrep⟩ := h.sound.represents a o ho
  obtain ⟨octets, hholds, hsize, hentries⟩ := hrep.entries
  have hdrafts := h.drafts a s hs
  constructor
  case home => exact hrep.home
  case count => exact hrep.count
  case entries =>
    rw [← hdrafts, ContractSnapshot.drafts, List.forall₂_map_right_iff]
    exact hentries.imp fun _ _ hat => hat.owned hholds hsize
  case content => exact ⟨s, (h.sound.content_eq a).trans hs, hdrafts⟩
  case own =>
    intro b p block hp hblock hblock'
    exact h.sound.separate b a p o block hp ho hblock' hblock

/-- In every world that calls lead to, the snapshots are intact; a call changes the content
of its target only, a clone has the content of its source, and a registration that fails
leaves the content. -/
theorem snapshot_integrity {w : SnapshotWorld} {drafts : ℕ → List Bytes}
    (h : SnapshotRun w drafts) :
    (∀ a o, w.snapshots a = some o → o.Intact w a (drafts a)) ∧
      (∀ (call : SnapshotCall) a, call.target ≠ some a → w.snapshots a ≠ none →
        (call.perform w).2.content a = w.content a) ∧
      (∀ a b allocates allocatesDrafts,
        (w.snapshotClone a allocates allocatesDrafts).1 = some b →
          w.snapshots b = none ∧
            (w.snapshotClone a allocates allocatesDrafts).2.content b = w.content a) ∧
      ∀ a canonicalDraft allocates status,
        (w.snapshotRegister a canonicalDraft allocates).1 = .error status →
          (w.snapshotRegister a canonicalDraft allocates).2.content = w.content := by
  obtain ⟨values, hvalues⟩ := h.tracked
  refine ⟨fun a o => hvalues.intact, ?_, ?_, ?_⟩
  · intro call a htarget ha
    obtain ⟨values', hvalues', hsame⟩ := hvalues.call call
    rw [hvalues'.sound.content_eq, hvalues.sound.content_eq, hsame a htarget ha]
  · intro a b allocates allocatesDrafts hmade
    have hcloned := SnapshotWorld.snapshotClone_sound hvalues.sound a allocates allocatesDrafts
    rw [hmade] at hcloned
    obtain ⟨-, hnew, hsound⟩ := hcloned
    refine ⟨hnew, ?_⟩
    rw [hsound.content_eq, hvalues.sound.content_eq, Function.update_self]
  · intro a canonicalDraft allocates status hstatus
    funext b
    rcases SnapshotWorld.snapshotRegister_performs hvalues.sound a canonicalDraft allocates with
      ⟨_, -, hsound⟩ | ⟨_, _, _, -, -, hdone, -⟩
    · rw [hsound.content_eq, hvalues.sound.content_eq]
    · rw [hstatus] at hdone
      cases hdone

/-- Calls one after the other, with the drafts they register. -/
def performAll (calls : List SnapshotCall) : SnapshotWorld × (ℕ → List Bytes) :=
  calls.foldl (fun r call =>
    ((call.perform r.1).2, call.registers (call.perform r.1).1 r.2)) (.empty, fun _ => [])

theorem snapshotRun_performAll (calls : List SnapshotCall) :
    SnapshotRun (performAll calls).1 (performAll calls).2 := by
  induction calls using List.reverseRecOn with
  | nil => exact .empty
  | append_singleton calls call ih =>
      rw [performAll, List.foldl_append]
      exact .call call ih

end

section Sample

attribute [local instance] Sample.createPrimitives

namespace Sample

/-- A draft is registered twice, its snapshot is cloned, and it is issued in the first one. -/
def snapshotCalls : List SnapshotCall :=
  [.create true, .register 0 draft true, .register 0 draft true, .clone 0 true true,
    .act 0 0 none ⟨0, 0⟩ .create 1]

end Sample

open Sample

theorem sample_snapshots_intact : ∃ o, (performAll snapshotCalls).1.snapshots 1 = some o ∧
    o.Intact (performAll snapshotCalls).1 1 [draft] := by
  have hclone : ((performAll snapshotCalls).1.snapshots 1).isSome = true := by decide +kernel
  have hdrafts : (performAll snapshotCalls).2 1 = [draft] := by decide +kernel
  obtain ⟨o, ho⟩ := Option.isSome_iff_exists.mp hclone
  refine ⟨o, ho, ?_⟩
  rw [← hdrafts]
  exact (snapshot_integrity (snapshotRun_performAll snapshotCalls)).1 1 o ho

end Sample

end StnChain
