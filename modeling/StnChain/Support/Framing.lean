import Mathlib.Tactic.Common

/-!
# Frames of a stream

A stream is cut into frames: a header of a fixed size, which says how long the rest of its frame
is, or is refused.  A server of the stream takes the frames off in turn and sends the answer to
each, until it refuses one or its connection ends, which may be in the middle of a frame or of
an answer.  `Serves.spec` says what it has answered and sent by then.
-/

namespace Framing

variable {β σ : Type*}

/-! ## Cuts -/

/-- The size of a header and what a header says of the rest of its frame. -/
structure Format (β : Type*) where
  header : ℕ
  body : List β → Option ℕ

variable {f : Format β} {stream frame rest tail last : List β} {frames frames' : List (List β)}

/-- The first frame of a stream and what follows it. -/
def Format.next (f : Format β) (stream : List β) : Option (List β × List β) :=
  if stream.length < f.header then none
  else
    match f.body (stream.take f.header) with
    | none => none
    | some n => if stream.length < f.header + n then none else some (stream.splitAt (f.header + n))

theorem Format.next_eq_some : f.next stream = some (frame, rest) ↔
    ∃ n, f.header ≤ stream.length ∧ f.body (stream.take f.header) = some n ∧
      f.header + n ≤ stream.length ∧ frame = stream.take (f.header + n) ∧
      rest = stream.drop (f.header + n) := by
  unfold Format.next
  by_cases hheader : stream.length < f.header
  · rw [if_pos hheader]
    constructor
    · intro h
      cases h
    · intro ⟨n, hle, _⟩
      exact absurd hheader (Nat.not_lt.mpr hle)
  rw [if_neg hheader]
  cases hbody : f.body (stream.take f.header) with
  | none => simp
  | some n =>
      dsimp only
      by_cases hlength : stream.length < f.header + n
      · rw [if_pos hlength]
        constructor
        · intro h
          cases h
        · intro ⟨m, _, hm, hle, _⟩
          obtain rfl := Option.some.inj hm
          exact absurd hlength (Nat.not_lt.mpr hle)
      · rw [if_neg hlength, List.splitAt_eq]
        constructor
        · intro h
          obtain ⟨rfl, rfl⟩ := Prod.mk.inj (Option.some.inj h)
          exact ⟨n, Nat.le_of_not_lt hheader, rfl, Nat.le_of_not_lt hlength, rfl, rfl⟩
        · intro ⟨m, _, hm, _, hframe, hrest⟩
          obtain rfl := Option.some.inj hm
          rw [hframe, hrest]

/-- The first frame is read in two parts, its header and as much as the header announces. -/
theorem Format.parts_of_next (h : f.next stream = some (frame, rest)) :
    f.header ≤ stream.length ∧ f.body (stream.take f.header) = some (frame.length - f.header) ∧
      frame.length - f.header ≤ (stream.drop f.header).length ∧
      stream.take f.header ++ (stream.drop f.header).take (frame.length - f.header) = frame ∧
      (stream.drop f.header).drop (frame.length - f.header) = rest := by
  obtain ⟨n, hheader, hbody, hbound, rfl, rfl⟩ := Format.next_eq_some.mp h
  have hlength : (stream.take (f.header + n)).length - f.header = n := by
    rw [List.length_take, Nat.min_eq_left hbound, Nat.add_sub_cancel_left]
  rw [hlength]
  refine ⟨hheader, hbody, ?_, List.take_add.symm, List.drop_drop⟩
  rw [List.length_drop]
  omega

/-- The first frame of a stream is that of every stream it is the front of. -/
theorem Format.next_of_prefix {whole : List β} (h : f.next stream = some (frame, rest))
    (hfront : stream <+: whole) : ∃ last, f.next whole = some (frame, last) ∧ rest <+: last := by
  obtain ⟨n, hheader, hbody, hbound, rfl, rfl⟩ := Format.next_eq_some.mp h
  obtain ⟨more, rfl⟩ := hfront
  refine ⟨stream.drop (f.header + n) ++ more, ?_, List.prefix_append _ _⟩
  apply Format.next_eq_some.mpr
  refine ⟨n, ?_, ?_, ?_, ?_, ?_⟩
  · rw [List.length_append]
    omega
  · rw [List.take_append_of_le_length hheader]
    exact hbody
  · rw [List.length_append]
    omega
  · rw [List.take_append_of_le_length hbound]
  · rw [List.drop_append_of_le_length hbound]

/-- A header and the rest it announces are the first frame, whatever follows. -/
theorem Format.next_of_parts {header body : List β} (hheader : header.length = f.header)
    (hbody : f.body header = some body.length) (rest : List β) :
    f.next (header ++ body ++ rest) = some (header ++ body, rest) := by
  apply Format.next_eq_some.mpr
  refine ⟨body.length, ?_, ?_, ?_, ?_, ?_⟩
  · simp only [List.length_append]
    omega
  · rw [List.append_assoc, List.take_left' hheader]
    exact hbody
  · simp only [List.length_append]
    omega
  · rw [List.take_left' (by rw [List.length_append, hheader])]
  · rw [List.drop_left' (by rw [List.length_append, hheader])]

/-- The first frames of a stream and what follows them. -/
inductive Cuts (f : Format β) : List β → List (List β) → List β → Prop
  | nil (stream : List β) : Cuts f stream [] stream
  | cons {stream frame rest last : List β} {frames : List (List β)}
      (h : f.next stream = some (frame, rest)) (hrest : Cuts f rest frames last) :
      Cuts f stream (frame :: frames) last

/-- What can be cut out of a front of some frames is a front of them. -/
theorem Cuts.front {part : List β} (hheader : 0 < f.header) (h : Cuts f stream frames last)
    (hlast : last = []) (hfront : part <+: stream) (hpart : Cuts f part frames' rest) :
    frames' <+: frames := by
  induction h generalizing part frames' with
  | nil stream =>
      cases hpart with
      | nil _ => exact List.nil_prefix
      | cons hnext _ =>
          rw [hlast, List.prefix_nil] at hfront
          obtain ⟨n, hlong, -⟩ := Format.next_eq_some.mp hnext
          rw [hfront, List.length_nil] at hlong
          exact absurd hlong (Nat.not_le.mpr hheader)
  | cons hnext _ ih =>
      cases hpart with
      | nil _ => exact List.nil_prefix
      | cons hnext' hrest' =>
          obtain ⟨later, hwhole, hlater⟩ := Format.next_of_prefix hnext' hfront
          obtain ⟨rfl, rfl⟩ := Prod.mk.inj (Option.some.inj (hnext.symm.trans hwhole))
          exact (List.prefix_cons_inj _).mpr (ih hlast hlater hrest')

/-! ## Answers -/

/-- The answers to requests in turn, up to the first that is refused. -/
def answers (answer : List β → σ → Option (List β) × σ) : List (List β) → σ → List (List β) × σ
  | [], x => ([], x)
  | request :: rest, x =>
      match answer request x with
      | (none, x) => ([], x)
      | (some response, x) =>
          let (responses, x) := answers answer rest x
          (response :: responses, x)

variable {answer : List β → σ → Option (List β) × σ} {x x' : σ}

/-- Where all requests are answered, the first is, and all the others are. -/
theorem answers_cons {request : List β} {requests responses : List (List β)}
    (h : answers answer (request :: requests) x = (responses, x'))
    (hall : (request :: requests).length = responses.length) :
    ∃ response y later, answer request x = (some response, y) ∧
      answers answer requests y = (later, x') ∧ responses = response :: later ∧
      requests.length = later.length := by
  unfold answers at h
  split at h
  · rw [← (Prod.mk.inj h).1] at hall
    cases hall
  next response y hanswer =>
  obtain ⟨rfl, hlast⟩ := Prod.mk.inj h
  exact ⟨response, y, _, hanswer, Prod.ext rfl hlast, rfl, Nat.succ.inj hall⟩

/-- What a server may have made of a stream when it ends: it has stopped between frames or
within one, it has refused a frame, or it has sent a part of an answer. -/
inductive Serves (f : Format β) (answer : List β → σ → Option (List β) × σ) :
    List β → σ → List β → σ → Prop
  | stopped (stream : List β) (x : σ) : Serves f answer stream x [] x
  | refused {stream frame rest : List β} {x x' : σ} (h : f.next stream = some (frame, rest))
      (hanswer : answer frame x = (none, x')) : Serves f answer stream x [] x'
  | broken {stream frame rest response part : List β} {x x' : σ}
      (h : f.next stream = some (frame, rest)) (hanswer : answer frame x = (some response, x'))
      (hpart : part <+: response) : Serves f answer stream x part x'
  | served {stream frame rest response sent : List β} {x x' x'' : σ}
      (h : f.next stream = some (frame, rest)) (hanswer : answer frame x = (some response, x'))
      (hrest : Serves f answer rest x' sent x'') : Serves f answer stream x (response ++ sent) x''

/-- A server has answered the first frames of its stream, each once and in their order, and has
sent the front of the answers, with all of them but the last. -/
theorem Serves.spec {sent : List β} (h : Serves f answer stream x sent x') :
    ∃ requests rest responses, Cuts f stream requests rest ∧
      answers answer requests x = (responses, x') ∧ sent <+: responses.flatten ∧
      responses.dropLast.flatten <+: sent ∧ requests.length ≤ responses.length + 1 := by
  induction h with
  | stopped stream x =>
      exact ⟨[], stream, [], .nil stream, rfl, List.prefix_rfl, List.prefix_rfl, by simp⟩
  | @refused stream frame rest x x' h hanswer =>
      refine ⟨[frame], rest, [], .cons h (.nil rest), ?_, List.prefix_rfl, List.prefix_rfl,
        by simp⟩
      simp only [answers, hanswer]
  | @broken stream frame rest response part x x' h hanswer hpart =>
      refine ⟨[frame], rest, [response], .cons h (.nil rest), ?_, ?_, List.nil_prefix, by simp⟩
      · simp only [answers, hanswer]
      · rw [List.flatten_singleton]
        exact hpart
  | @served stream frame rest response sent x x' x'' h hanswer _ ih =>
      obtain ⟨requests, last, responses, hcuts, hanswers, hsent, hall, hlength⟩ := ih
      refine ⟨frame :: requests, last, response :: responses, .cons h hcuts, ?_, ?_, ?_, ?_⟩
      · simp only [answers, hanswer, hanswers]
      · rw [List.flatten_cons]
        exact (List.prefix_append_right_inj response).mpr hsent
      · cases responses with
        | nil => exact List.nil_prefix
        | cons second others =>
            rw [List.dropLast_cons_cons, List.flatten_cons]
            exact (List.prefix_append_right_inj response).mpr hall
      · simp only [List.length_cons]
        omega

end Framing
