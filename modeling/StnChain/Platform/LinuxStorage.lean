import StnChain.Persistence
import StnChain.Support.Publication

/-!
# Storage on Linux

The Linux adapter of the storage provider (`platforms/linux/stn_linux_storage.c`).  What the
operating system answers to each call is arbitrary: how much a `read` or a `write` moves, and
which calls fail.  The adapter keeps the contract of a provider, `linuxDevice`, and over every
run of calls, kills and losses of power the snapshot is one that was written as a whole,
`snapshot_whole`.
-/

namespace StnChain

open Publication

/-! ## The adapter -/

/-- What `flock` answers. -/
inductive FlockAnswer
  | granted | wouldBlock | failed
  deriving DecidableEq, Repr

/-- What the system answers to the calls of one adapter function.  `moved` is what a `read` or
a `write` at an offset moves, and `none` if it fails; an interrupted one is made again. -/
structure SystemAnswers where
  opens : Bool
  ordinary : Bool
  flock : FlockAnswer
  moved : ℕ → Option ℕ
  fsync : Bool
  close : Bool
  rename : Bool
  unlink : Bool

/-- `stn_linux_storage` with the two files it names, what the system will answer, and after
how many operations on the files the process is killed, if it is killed in the next call that
makes them. -/
structure LinuxStorage where
  disk : Disk UInt8
  locked : Bool
  answers : ℕ → SystemAnswers
  kill : Option ℕ
  calls : ℕ

/-- What the system answers to the call being made. -/
def LinuxStorage.answer (s : LinuxStorage) : SystemAnswers :=
  s.answers s.calls

/-- A call has been made. -/
def LinuxStorage.next (s : LinuxStorage) : LinuxStorage :=
  { s with calls := s.calls + 1 }

/-- `acquire`. -/
def linuxAcquire (s : LinuxStorage) : Except StorageStatus Unit × LinuxStorage :=
  if s.locked then (.error .busy, s.next)
  else if !s.answer.opens then (.error .io, s.next)
  else if !s.answer.ordinary then (.error .io, s.next)
  else
    match s.answer.flock with
    | .granted => (.ok (), { s.next with locked := true })
    | .wouldBlock => (.error .busy, s.next)
    | .failed => (.error .io, s.next)

/-- `release`. -/
def linuxRelease (s : LinuxStorage) : LinuxStorage :=
  { s with locked := false }

/-- The most one `read` or `write` is asked to move. -/
def transferRequest : ℕ := 65536

/-- The octets one `read` or `write` at an offset moves, of `n` that were possible. -/
def movedPart (bytes : Bytes) (offset n : ℕ) : Bytes :=
  (bytes.drop offset).take (min n transferRequest)

/-- The loop of `read_snapshot`.  Each turn moves an octet, so the length of the content is a
bound on the turns. -/
def readLoop (moved : ℕ → Option ℕ) (content : Bytes) : ℕ → ℕ → Option Bytes
  | 0, _ => some []
  | turns + 1, offset =>
      if offset < content.length then
        match moved offset with
        | none => none
        | some 0 => none
        | some (n + 1) =>
            let part := movedPart content offset (n + 1)
            (readLoop moved content turns (offset + part.length)).map (part ++ ·)
      else some []

/-- `read_snapshot`: what it returns, and the length it reports of a file it opened. -/
def linuxRead (capacity : ℕ) (s : LinuxStorage) :
    (Except StorageStatus Bytes × Option ℕ) × LinuxStorage :=
  if !s.locked then ((.error .io, none), s.next)
  else
    match s.disk.target with
    | none => ((.error (if s.answer.opens then .notFound else .io), none), s.next)
    | some f =>
        if !s.answer.opens then ((.error .io, none), s.next)
        else
          let length := if s.answer.ordinary then some f.content.length else none
          let result : Except StorageStatus Bytes :=
            if !s.answer.ordinary then .error .io
            else if f.content.length > capacity then .error .capacity
            else
              match readLoop s.answer.moved f.content f.content.length 0 with
              | none => .error .io
              | some bytes => .ok bytes
          ((if s.answer.close then result else .error .io, length), s.next)

/-- The loop of `replace_snapshot`: the parts written, and whether everything was. -/
def writeLoop (moved : ℕ → Option ℕ) (bytes : Bytes) : ℕ → ℕ → List Bytes × Bool
  | 0, _ => ([], true)
  | turns + 1, offset =>
      if offset < bytes.length then
        match moved offset with
        | none => ([], false)
        | some 0 => ([], false)
        | some (n + 1) =>
            let part := movedPart bytes offset (n + 1)
            let rest := writeLoop moved bytes turns (offset + part.length)
            (part :: rest.1, rest.2)
      else ([], true)

/-- `replace_snapshot` of a held lock: its status, and what it does to the files one after
another.  A staging file that exists is not opened. -/
def replaceOperations (a : SystemAnswers) (staged : Bool) (bytes : Bytes) :
    Except StorageStatus Unit × List (Operation UInt8) :=
  if bytes.length < storageOverhead then (.error .io, [])
  else if staged || !a.opens then (.error .io, [])
  else
    let written := writeLoop a.moved bytes bytes.length 0
    let synced := written.2 && a.fsync
    let staging := .create :: (written.1.map .write ++ if synced then [.sync] else [])
    if synced && a.close && a.rename then (.ok (), staging ++ [.rename])
    else (.error .io, staging ++ if a.unlink then [.remove] else [])

/-- A call in which the process may be killed.  No one sees the status of a call that does
not return. -/
def killedAfter (kill : Option ℕ) (r : Except StorageStatus Unit × List (Operation UInt8)) :
    Except StorageStatus Unit × List (Operation UInt8) :=
  match kill with
  | none => r
  | some k => if k < r.2.length then (.error .io, r.2.take k) else r

/-- `replace_snapshot`. -/
def linuxReplace (bytes : Bytes) (s : LinuxStorage) : Except StorageStatus Unit × LinuxStorage :=
  if !s.locked then (.error .io, s.next)
  else
    let replaced := killedAfter s.kill (replaceOperations s.answer s.disk.staged.isSome bytes)
    (replaced.1, { s.next with disk := s.disk.perform replaced.2 })

/-! ## The transfer loops -/

section Loops

variable {moved : ℕ → Option ℕ} {bytes : Bytes} {turns offset : ℕ}

theorem movedPart_append (bytes : Bytes) (offset n : ℕ) :
    movedPart bytes offset n ++ bytes.drop (offset + (movedPart bytes offset n).length) =
      bytes.drop offset := by
  rw [← List.drop_drop, movedPart]
  generalize bytes.drop offset = rest
  rw [List.length_take]
  by_cases h : min n transferRequest ≤ rest.length
  · rw [min_eq_left h, List.take_append_drop]
  · rw [min_eq_right (Nat.le_of_not_le h), List.drop_length, List.append_nil,
      List.take_of_length_le (Nat.le_of_not_le h)]

theorem movedPart_pos {n : ℕ} (h : offset < bytes.length) :
    0 < (movedPart bytes offset (n + 1)).length := by
  simp only [movedPart, transferRequest, List.length_take, List.length_drop]
  omega

/-- What is read is the content, however it is delivered. -/
theorem readLoop_eq_some (hturns : bytes.length ≤ turns + offset) {result : Bytes}
    (h : readLoop moved bytes turns offset = some result) : result = bytes.drop offset := by
  induction turns generalizing offset result with
  | zero =>
      rw [readLoop] at h
      rw [← Option.some.inj h, List.drop_of_length_le (by omega)]
  | succ turns ih =>
      rw [readLoop] at h
      split at h
      · next hoffset =>
          split at h
          · cases h
          · cases h
          next n hmoved =>
          obtain ⟨rest, hrest, rfl⟩ := Option.map_eq_some_iff.mp h
          have hpos := movedPart_pos (n := n) hoffset
          rw [ih (by omega) hrest]
          exact movedPart_append bytes offset (n + 1)
      · next hoffset =>
          rw [← Option.some.inj h, List.drop_of_length_le (Nat.le_of_not_lt hoffset)]

variable (moved) in
/-- What is written is the front of the bytes, and all of them if every write succeeded. -/
theorem writeLoop_spec (hturns : bytes.length ≤ turns + offset) :
    (∃ rest, (writeLoop moved bytes turns offset).1.flatten ++ rest = bytes.drop offset) ∧
      ((writeLoop moved bytes turns offset).2 = true →
        (writeLoop moved bytes turns offset).1.flatten = bytes.drop offset) := by
  induction turns generalizing offset with
  | zero =>
      have hnil : bytes.drop offset = [] := List.drop_of_length_le (by omega)
      rw [writeLoop, hnil]
      exact ⟨⟨[], rfl⟩, fun _ => rfl⟩
  | succ turns ih =>
      rw [writeLoop]
      split
      · next hoffset =>
          split
          · exact ⟨⟨_, rfl⟩, by simp⟩
          · exact ⟨⟨_, rfl⟩, by simp⟩
          next n hmoved =>
          have hpos := movedPart_pos (n := n) hoffset
          have hnext : bytes.length ≤
              turns + (offset + (movedPart bytes offset (n + 1)).length) := by omega
          obtain ⟨⟨rest, hrest⟩, hall⟩ := ih hnext
          constructor
          · exact ⟨rest, by rw [List.flatten_cons, List.append_assoc, hrest, movedPart_append]⟩
          · intro hok
            rw [List.flatten_cons, hall hok, movedPart_append]
      · next hoffset =>
          have hnil : bytes.drop offset = [] := List.drop_of_length_le (Nat.le_of_not_lt hoffset)
          rw [hnil]
          exact ⟨⟨[], rfl⟩, fun _ => rfl⟩

end Loops

/-! ## The operations of a replacement -/

section Replacement

variable {a : SystemAnswers} {staged : Bool} {bytes : Bytes}

/-- A replacement that succeeds is complete, and one that fails does not rename. -/
theorem replaceOperations_spec (a : SystemAnswers) (staged : Bool) (bytes : Bytes) :
    (∃ parts : List Bytes, parts.flatten = bytes ∧
      replaceOperations a staged bytes = (.ok (), replacement parts)) ∨
    ((replaceOperations a staged bytes).1 = .error .io ∧
      Attempt bytes (replaceOperations a staged bytes).2) := by
  have hnothing : Attempt bytes ([] : List (Operation UInt8)) :=
    .stopped [bytes] 0 (by simp) (by simp [replacement])
  rw [replaceOperations]
  split
  · exact .inr ⟨rfl, hnothing⟩
  split
  · exact .inr ⟨rfl, hnothing⟩
  have hturns : bytes.length ≤ bytes.length + 0 := le_rfl
  obtain ⟨⟨rest, hrest⟩, hall⟩ := writeLoop_spec a.moved hturns
  rw [List.drop_zero] at hrest hall
  dsimp only
  generalize writeLoop a.moved bytes bytes.length 0 = written at hrest hall ⊢
  obtain ⟨parts, whole⟩ := written
  dsimp only at hrest hall ⊢
  -- What precedes the renaming is the front of a complete replacement.
  have hfront : ∃ parts' k, parts'.flatten = bytes ∧ k < (replacement parts').length ∧
      .create :: (parts.map .write ++ if whole && a.fsync then [.sync] else []) =
        (replacement parts').take k := by
    cases hwhole : whole with
    | false =>
        refine ⟨parts ++ [rest], parts.length + 1, by simpa using hrest, ?_, ?_⟩
        · simp [replacement]
        · simp [replacement]
    | true =>
        cases hsync : a.fsync with
        | false =>
            refine ⟨parts, parts.length + 1, hall hwhole, by simp [replacement], ?_⟩
            simp [replacement]
        | true =>
            refine ⟨parts, parts.length + 2, hall hwhole, by simp [replacement], ?_⟩
            simp [replacement, List.take_append]
  split
  · next hdone =>
      have hwhole : whole = true := by
        simp only [Bool.and_eq_true] at hdone
        exact hdone.1.1.1
      have hsynced : (whole && a.fsync) = true := by
        simp only [Bool.and_eq_true] at hdone ⊢
        exact hdone.1.1
      refine .inl ⟨parts, hall hwhole, ?_⟩
      rw [if_pos hsynced, replacement]
      simp
  · obtain ⟨parts', k, hflatten, hk, heq⟩ := hfront
    refine .inr ⟨rfl, ?_⟩
    rw [heq]
    cases a.unlink with
    | false => simpa using Attempt.stopped parts' k hflatten hk
    | true => exact .undone parts' k hflatten hk

/-- A call that returns success is a complete replacement; any other one, also one that does
not return, does not rename. -/
theorem killedAfter_spec (kill : Option ℕ) (a : SystemAnswers) (staged : Bool) (bytes : Bytes) :
    (∃ parts : List Bytes, parts.flatten = bytes ∧
      killedAfter kill (replaceOperations a staged bytes) = (.ok (), replacement parts)) ∨
    ((killedAfter kill (replaceOperations a staged bytes)).1 = .error .io ∧
      Attempt bytes (killedAfter kill (replaceOperations a staged bytes)).2) := by
  have hspec := replaceOperations_spec a staged bytes
  generalize replaceOperations a staged bytes = r at hspec ⊢
  cases kill with
  | none => exact hspec
  | some k =>
      rw [killedAfter]
      split
      · next hk =>
          refine .inr ⟨rfl, ?_⟩
          rcases hspec with ⟨parts, hparts, rfl⟩ | ⟨-, hattempt⟩
          · exact .stopped parts k hparts hk
          · exact hattempt.take k
      · exact hspec

theorem killedAfter_ok {k : Option ℕ}
    (h : (killedAfter k (replaceOperations a staged bytes)).1 = .ok ()) :
    ∃ parts : List Bytes, parts.flatten = bytes ∧
      (killedAfter k (replaceOperations a staged bytes)).2 = replacement parts := by
  rcases killedAfter_spec k a staged bytes with ⟨parts, hparts, heq⟩ | ⟨hfailed, -⟩
  · exact ⟨parts, hparts, by rw [heq]⟩
  · rw [hfailed] at h
    cases h

theorem killedAfter_error {k : Option ℕ} {status : StorageStatus}
    (h : (killedAfter k (replaceOperations a staged bytes)).1 = .error status) :
    Attempt bytes (killedAfter k (replaceOperations a staged bytes)).2 := by
  rcases killedAfter_spec k a staged bytes with ⟨parts, -, heq⟩ | ⟨-, hattempt⟩
  · rw [heq] at h
    cases h
  · exact hattempt

/-- A staging file that exists is neither opened nor removed. -/
theorem killedAfter_staged (kill : Option ℕ) (a : SystemAnswers) (bytes : Bytes) :
    killedAfter kill (replaceOperations a true bytes) = (.error .io, []) := by
  have hnothing : replaceOperations a true bytes = (.error .io, []) := by
    simp [replaceOperations]
  rw [hnothing]
  cases kill with
  | none => rfl
  | some k => rfl

end Replacement

/-! ## The contract of a provider -/

/-- The snapshot a state of the adapter holds. -/
def LinuxStorage.snapshot (s : LinuxStorage) : Option Bytes :=
  s.disk.target.map File.content

/-- The adapter keeps the contract of a provider, whatever the system answers. -/
def linuxDevice : StorageDevice LinuxStorage where
  persisted := LinuxStorage.snapshot
  acquire := linuxAcquire
  release := linuxRelease
  read capacity s := ((linuxRead capacity s).1.1, (linuxRead capacity s).2)
  replace := linuxReplace
  acquire_persisted s := by
    simp only [linuxAcquire]
    split
    · rfl
    split
    · rfl
    split
    · rfl
    split <;> rfl
  release_persisted s := rfl
  read_persisted capacity s := by
    simp only [linuxRead]
    split
    · rfl
    split
    · rfl
    split <;> rfl
  read_ok capacity s image h := by
    simp only [linuxRead] at h
    split at h
    · cases h
    split at h
    · cases h
    next f htarget =>
    split at h
    · cases h
    simp only at h
    split at h
    · split at h
      · cases h
      split at h
      · cases h
      split at h
      · cases h
      next bytes hread =>
      obtain rfl := Except.ok.inj h
      rw [LinuxStorage.snapshot, htarget, readLoop_eq_some (le_refl _) hread, List.drop_zero,
        Option.map_some]
    · cases h
  read_notFound capacity s h := by
    simp only [linuxRead] at h
    split at h
    · cases h
    split at h
    · next htarget => rw [LinuxStorage.snapshot, htarget, Option.map_none]
    split at h
    · cases h
    simp only at h
    split at h
    · split at h
      · cases h
      split at h
      · cases h
      split at h
      · cases h
      · cases h
    · cases h
  replace_ok image s h := by
    simp only [linuxReplace] at h ⊢
    split at h
    · cases h
    next hlocked =>
    obtain ⟨parts, hparts, heq⟩ := killedAfter_ok h
    rw [if_neg hlocked, heq]
    simp only [LinuxStorage.snapshot, perform_replacement, hparts, Option.map_some]
  replace_error image s status h := by
    simp only [linuxReplace] at h ⊢
    split at h
    · next hlocked =>
        rw [if_pos hlocked]
        rfl
    · next hlocked =>
        have hkept := perform_keeps (d := s.disk) (killedAfter_error h).rename_notMem
        rw [if_neg hlocked]
        simp only [LinuxStorage.snapshot, hkept.1]

/-! ## Kills and losses of power -/

/-- What happens to the files: a replacement, which may be killed, or a loss of power. -/
inductive DiskEvent
  | replaced (kill : Option ℕ) (a : SystemAnswers) (bytes : Bytes)
  | powerLost (l : Loss UInt8)

/-- The images an event offers. -/
def DiskEvent.offered : DiskEvent → List Bytes
  | .replaced _ _ bytes => [bytes]
  | .powerLost _ => []

/-- The status a replacement returns, if it returns. -/
def DiskEvent.status (d : Disk UInt8) : DiskEvent → Option (Except StorageStatus Unit)
  | .replaced none a bytes => some (replaceOperations a d.staged.isSome bytes).1
  | _ => none

/-- What an event leaves of the files. -/
def diskStep (d : Disk UInt8) : DiskEvent → Disk UInt8
  | .replaced kill a bytes =>
      d.perform (killedAfter kill (replaceOperations a d.staged.isSome bytes)).2
  | .powerLost l => d.lose l

/-- The files after a run of events. -/
def diskRun (d : Disk UInt8) (events : List DiskEvent) : Disk UInt8 :=
  events.foldl diskStep d

section Crashes

variable {d : Disk UInt8} {event : DiskEvent} {events : List DiskEvent}

/-- A replacement publishes its image as a whole or changes nothing shown. -/
theorem diskStep_replaced (d : Disk UInt8) (kill : Option ℕ) (a : SystemAnswers) (bytes : Bytes) :
    diskStep d (.replaced kill a bytes) = ⟨some ⟨bytes, true⟩, none, d.target :: d.past⟩ ∨
    ((diskStep d (.replaced kill a bytes)).target = d.target ∧
      (diskStep d (.replaced kill a bytes)).past = d.past ∧
      (killedAfter kill (replaceOperations a d.staged.isSome bytes)).1 = .error .io) := by
  rcases killedAfter_spec kill a d.staged.isSome bytes with
    ⟨parts, hparts, heq⟩ | ⟨hfailed, hattempt⟩
  · left
    rw [diskStep, heq, perform_replacement, hparts]
  · right
    have hkept := perform_keeps (d := d) hattempt.rename_notMem
    exact ⟨hkept.1, hkept.2, hfailed⟩

/-- An event shows nothing but what was shown before and the image it offers. -/
theorem diskStep_complete {P : Bytes → Prop} (h : d.Complete P)
    (hoffered : ∀ bytes ∈ event.offered, P bytes) : (diskStep d event).Complete P := by
  cases event with
  | powerLost l => exact (h.lose l).1
  | replaced kill a bytes =>
      rcases diskStep_replaced d kill a bytes with heq | ⟨htarget, hpast, -⟩
      · rw [heq]
        intro f hf
        rcases List.mem_cons.mp hf with hnew | hold
        · obtain rfl := Option.some.inj hnew
          exact ⟨rfl, hoffered bytes (List.mem_singleton_self _)⟩
        · exact h f hold
      · exact h.keep ⟨htarget, hpast⟩

/-- The snapshot is never missing again once there is one. -/
theorem diskStep_shown {P : Bytes → Prop} (h : d.Complete P)
    (hshown : none ∉ d.target :: d.past) :
    none ∉ (diskStep d event).target :: (diskStep d event).past := by
  cases event with
  | powerLost l =>
      intro hnone
      have htarget : none = (d.lose l).target := by
        simpa [diskStep, Disk.lose] using hnone
      exact hshown (htarget ▸ (h.lose l).2)
  | replaced kill a bytes =>
      rcases diskStep_replaced d kill a bytes with heq | ⟨htarget, hpast, -⟩
      · rw [heq]
        intro hnone
        exact hshown (by simpa using hnone)
      · rw [htarget, hpast]
        exact hshown

theorem diskRun_complete {P : Bytes → Prop} (h : d.Complete P)
    (hoffered : ∀ bytes ∈ events.flatMap DiskEvent.offered, P bytes) :
    (diskRun d events).Complete P ∧
      (none ∉ d.target :: d.past → (diskRun d events).target ≠ none) := by
  induction events generalizing d with
  | nil => exact ⟨h, fun hshown hnone => hshown (List.mem_cons.mpr (.inl hnone.symm))⟩
  | cons event rest ih =>
      simp only [List.flatMap_cons, List.mem_append] at hoffered
      have hstep := diskStep_complete h fun bytes hbytes => hoffered bytes (.inl hbytes)
      obtain ⟨hcomplete, hrest⟩ := ih hstep fun bytes hbytes => hoffered bytes (.inr hbytes)
      exact ⟨hcomplete, fun hshown => hrest (diskStep_shown h hshown)⟩

/-- Over every run of replacements, kills and losses of power the snapshot is the one at the
start or an image offered to the adapter, as a whole.  The next replacement publishes its image
or leaves the snapshot, and one that returns says which. -/
theorem snapshot_whole {start : Option (File UInt8)}
    (hstart : ∀ f, start = some f → f.synced = true)
    (staged : Option (File UInt8)) (events : List DiskEvent) :
    let d := diskRun ⟨start, staged, []⟩ events
    (∀ f, d.target = some f → f.synced = true ∧
      (start.map File.content = some f.content ∨ f.content ∈ events.flatMap DiskEvent.offered)) ∧
    (start ≠ none → d.target ≠ none) ∧
    ∀ a bytes, (∀ kill, let next := (diskStep d (.replaced kill a bytes)).target
        next = some ⟨bytes, true⟩ ∨ next = d.target) ∧
      ((replaceOperations a d.staged.isSome bytes).1 = .ok () →
        (diskStep d (.replaced none a bytes)).target = some ⟨bytes, true⟩) ∧
      ∀ status, (replaceOperations a d.staged.isSome bytes).1 = .error status →
        (diskStep d (.replaced none a bytes)).target = d.target := by
  intro d
  have hcomplete : Disk.Complete (fun xs => start.map File.content = some xs ∨
      xs ∈ events.flatMap DiskEvent.offered) ⟨start, staged, []⟩ := by
    intro f hf
    have hf : start = some f := (List.mem_singleton.mp hf).symm
    exact ⟨hstart f hf, .inl (by rw [hf, Option.map_some])⟩
  obtain ⟨hafter, hshown⟩ := diskRun_complete hcomplete fun bytes hbytes => .inr hbytes
  refine ⟨fun f hf => hafter f (List.mem_cons.mpr (.inl hf.symm)), ?_, ?_⟩
  · intro hsome
    exact hshown fun hnone => hsome (List.mem_singleton.mp hnone).symm
  intro a bytes
  refine ⟨fun kill => ?_, fun hok => ?_, fun status hfailed => ?_⟩
  · rcases diskStep_replaced d kill a bytes with heq | ⟨htarget, -, -⟩
    · exact .inl (by rw [heq])
    · exact .inr htarget
  · rcases diskStep_replaced d none a bytes with heq | ⟨-, -, hfailed⟩
    · rw [heq]
    · rw [killedAfter, hok] at hfailed
      cases hfailed
  · have hattempt := killedAfter_error (k := none) hfailed
    exact (perform_keeps (d := d) hattempt.rename_notMem).1

/-- A replacement killed between its first and its last operation leaves a staging file, which
nothing removes: the snapshot stays what it was and every later replacement fails. -/
theorem killed_replacement_blocks {d : Disk UInt8} {a : SystemAnswers} {bytes : Bytes} {k : ℕ}
    (hpos : 0 < k) (hk : k < (replaceOperations a d.staged.isSome bytes).2.length)
    (events : List DiskEvent)
    (hpower : ∀ l, DiskEvent.powerLost l ∉ events) :
    let after := diskRun d (.replaced (some k) a bytes :: events)
    after.target = d.target ∧
      ∀ a' bytes', (replaceOperations a' after.staged.isSome bytes').1 = .error .io := by
  have hleft : (diskStep d (.replaced (some k) a bytes)).target = d.target ∧
      (diskStep d (.replaced (some k) a bytes)).staged.isSome = true := by
    have hattempt : Attempt bytes
        (killedAfter (some k) (replaceOperations a d.staged.isSome bytes)).2 := by
      apply killedAfter_error
      rw [killedAfter, if_pos hk]
    refine ⟨(perform_keeps hattempt.rename_notMem).1, ?_⟩
    -- What has been done by then are the first operations of a replacement.
    obtain ⟨parts, hparts, htake⟩ : ∃ parts : List Bytes, k < (replacement parts).length ∧
        (replaceOperations a d.staged.isSome bytes).2.take k = (replacement parts).take k := by
      rcases replaceOperations_spec a d.staged.isSome bytes with ⟨parts, -, heq⟩ | ⟨-, hattempt⟩
      · rw [heq] at hk ⊢
        exact ⟨parts, hk, rfl⟩
      · exact hattempt.take_of_lt hk
    simp only [diskStep, killedAfter, if_pos hk, htake]
    exact staged_of_stopped hpos hparts
  have hstays : ∀ (events : List DiskEvent) (d : Disk UInt8), d.staged.isSome = true →
      (∀ l, DiskEvent.powerLost l ∉ events) → diskRun d events = d := by
    intro events
    induction events with
    | nil => exact fun d _ _ => rfl
    | cons event rest ih =>
        intro d hstaged hpower
        have hstep : diskStep d event = d := by
          cases event with
          | powerLost l => exact absurd List.mem_cons_self (hpower l)
          | replaced kill a bytes =>
              rw [diskStep, hstaged, killedAfter_staged]
              rfl
        rw [diskRun, List.foldl_cons, hstep]
        exact ih d hstaged fun l hl => hpower l (List.mem_cons_of_mem event hl)
  intro after
  have hafter : after = diskStep d (.replaced (some k) a bytes) :=
    hstays events _ hleft.2 hpower
  rw [hafter]
  refine ⟨hleft.1, fun a' bytes' => ?_⟩
  rw [hleft.2]
  simp [replaceOperations]

end Crashes

namespace Sample

/-- A system that grants every call and moves what is asked for. -/
def obliging : SystemAnswers where
  opens := true
  ordinary := true
  flock := .granted
  moved _ := some transferRequest
  fsync := true
  close := true
  rename := true
  unlink := true

end Sample

open Sample

/-- A power loss after a publication may show the snapshot before it, but no other one. -/
theorem sample_snapshot_whole :
    let d := diskRun ⟨some ⟨[7], true⟩, none, []⟩
      [.replaced none obliging (List.replicate 44 1), .powerLost ⟨1, [], none⟩]
    d.target = some ⟨[7], true⟩ ∧
      ∀ f, d.target = some f → f.synced = true ∧
        (some [7] = some f.content ∨ f.content ∈ [List.replicate 44 1]) := by
  have hstart : ∀ f, some (⟨[7], true⟩ : File UInt8) = some f → f.synced = true :=
    fun f hf => by rw [← Option.some.inj hf]
  have hwhole := snapshot_whole hstart none
    [.replaced none obliging (List.replicate 44 1), .powerLost ⟨1, [], none⟩]
  exact ⟨by decide +kernel, hwhole.1⟩

theorem sample_killed_replacement_blocks :
    let after := diskRun ⟨some ⟨[7], true⟩, none, []⟩
      [.replaced (some 1) obliging (List.replicate 44 1)]
    after.target = some ⟨[7], true⟩ ∧
      ∀ a bytes, (replaceOperations a after.staged.isSome bytes).1 = .error .io :=
  killed_replacement_blocks one_pos (by decide +kernel) [] (by simp)

end StnChain
