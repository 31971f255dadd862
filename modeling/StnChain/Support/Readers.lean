import Mathlib.Data.List.TakeWhile

/-!
# Readers of tokens

A text is laid out as tokens with spaces before them.  A reader takes a front of its input or
fails, and `Reads` says exactly which fronts it takes and what it makes of them.  The readers of
one token, sequences and choices have their rules, so that what a whole parser accepts is put
together from its parts.
-/

namespace Readers

variable {α β γ ε : Type} {space : α → Bool}

/-! ## Layouts -/

/-- Some tokens, each with spaces before it. -/
inductive Laid (space : α → Bool) : List (List α) → List α → Prop
  | nil : Laid space [] []
  | cons {spaces token rest : List α} {tokens : List (List α)}
      (hspaces : ∀ a ∈ spaces, space a = true) (hrest : Laid space tokens rest) :
      Laid space (token :: tokens) (spaces ++ (token ++ rest))

theorem Laid.append {tokens tokens' : List (List α)} {part part' : List α}
    (h : Laid space tokens part) (h' : Laid space tokens' part') :
    Laid space (tokens ++ tokens') (part ++ part') := by
  induction h with
  | nil => exact h'
  | cons hspaces _ ih =>
      rw [List.append_assoc, List.append_assoc]
      exact .cons hspaces ih

theorem Laid.of_append {tokens tokens' : List (List α)} {whole : List α}
    (h : Laid space (tokens ++ tokens') whole) :
    ∃ part part', Laid space tokens part ∧ Laid space tokens' part' ∧ whole = part ++ part' := by
  induction tokens generalizing whole with
  | nil => exact ⟨[], whole, .nil, h, rfl⟩
  | cons token tokens ih =>
      cases h with
      | @cons spaces _ rest _ hspaces hrest =>
          obtain ⟨part, part', hpart, hpart', rfl⟩ := ih hrest
          refine ⟨spaces ++ (token ++ part), part', .cons hspaces hpart, hpart', ?_⟩
          simp only [List.append_assoc]

/-- The spaces at the front of a layout are skipped. -/
theorem dropWhile_spaces {spaces rest : List α} {a : α} (hspaces : ∀ a ∈ spaces, space a = true)
    (ha : space a = false) : (spaces ++ a :: rest).dropWhile space = a :: rest := by
  rw [List.dropWhile_append_of_pos hspaces, List.dropWhile_cons_of_neg (by simp [ha])]

theorem spaces_takeWhile (input : List α) : ∀ a ∈ input.takeWhile space, space a = true :=
  fun _ h => List.mem_takeWhile_imp h

/-! ## Readers -/

/-- What a reader takes: a front that lays out tokens of the language, and its result with it. -/
def Reads (space : α → Bool) (r : StateT (List α) (Except ε) β)
    (language : β → List (List α) → Prop) : Prop :=
  ∀ input b rest, r input = .ok (b, rest) ↔
    ∃ tokens part, language b tokens ∧ Laid space tokens part ∧ input = part ++ rest

/-- The reader of one token. -/
def expect [DecidableEq α] (space : α → Bool) (e : ε) (token : List α) :
    StateT (List α) (Except ε) Unit := fun input =>
  let rest := input.dropWhile space
  if token.isPrefixOf rest then .ok ((), rest.drop token.length) else .error e

/-- Takes a token if it comes next. -/
def accept [DecidableEq α] (space : α → Bool) (token : List α) :
    StateT (List α) (Except ε) Bool := fun input =>
  let rest := input.dropWhile space
  if token.isPrefixOf rest then .ok (true, rest.drop token.length) else .ok (false, input)

/-- The symbols up to the closing one, at most `room` of them, and what follows it. -/
def textUntil [DecidableEq α] (closing : α) (ok : α → Bool) :
    List α → ℕ → Option (List α × List α)
  | [], _ => none
  | a :: rest, room =>
      if a = closing then some ([], rest)
      else if !ok a then none
      else if room = 0 then none
      else (textUntil closing ok rest (room - 1)).map fun p => (a :: p.1, p.2)

/-- The reader of a text between two delimiters. -/
def delimited [DecidableEq α] (space : α → Bool) (e : ε) (opening closing : α) (ok : α → Bool)
    (room : ℕ) : StateT (List α) (Except ε) (List α) := fun input =>
  match input.dropWhile space with
  | [] => .error e
  | a :: rest =>
      if a ≠ opening then .error e
      else
        match textUntil closing ok rest room with
        | none => .error e
        | some p => .ok p

variable {r : StateT (List α) (Except ε) β} {language : β → List (List α) → Prop}

theorem Reads.congr {language' : β → List (List α) → Prop} (h : Reads space r language)
    (hsame : ∀ b tokens, language b tokens ↔ language' b tokens) : Reads space r language' := by
  intro input b rest
  rw [h input b rest]
  simp only [hsame]

theorem Reads.pure (b : β) :
    Reads space (pure b : StateT (List α) (Except ε) β) fun b' tokens => b' = b ∧ tokens = [] := by
  intro input b' rest
  constructor
  · intro h
    obtain ⟨rfl, rfl⟩ := Prod.mk.inj (Except.ok.inj h)
    exact ⟨[], [], ⟨rfl, rfl⟩, .nil, rfl⟩
  · rintro ⟨tokens, part, ⟨rfl, rfl⟩, hlaid, rfl⟩
    cases hlaid
    rfl

theorem Reads.throw (e : ε) :
    Reads space (throw e : StateT (List α) (Except ε) β) fun _ _ => False := by
  intro input b rest
  constructor
  · intro h
    cases h
  · rintro ⟨_, _, hfalse, -⟩
    exact hfalse.elim

/-- One reader after another. -/
theorem Reads.bind {f : β → StateT (List α) (Except ε) γ}
    {language' : β → γ → List (List α) → Prop} (h : Reads space r language)
    (hf : ∀ b, Reads space (f b) (language' b)) :
    Reads space (r >>= f) fun c tokens => ∃ b first rest, language b first ∧
      language' b c rest ∧ tokens = first ++ rest := by
  intro input c rest
  have hbind : (r >>= f) input = (r input).bind fun p => f p.1 p.2 := rfl
  rw [hbind]
  constructor
  · intro hok
    cases hfirst : r input with
    | error e =>
        rw [hfirst] at hok
        cases hok
    | ok p =>
        rw [hfirst] at hok
        obtain ⟨tokens, part, hlanguage, hlaid, rfl⟩ := (h _ p.1 p.2).mp hfirst
        obtain ⟨tokens', part', hlanguage', hlaid', hinput⟩ := (hf p.1 p.2 c rest).mp hok
        refine ⟨tokens ++ tokens', part ++ part',
          ⟨p.1, tokens, tokens', hlanguage, hlanguage', rfl⟩, hlaid.append hlaid', ?_⟩
        rw [hinput, List.append_assoc]
  · rintro ⟨_, whole, ⟨b, first, second, hlanguage, hlanguage', rfl⟩, hlaid, rfl⟩
    obtain ⟨part, part', hpart, hpart', rfl⟩ := hlaid.of_append
    have hfirst := (h (part ++ (part' ++ rest)) b (part' ++ rest)).mpr
      ⟨first, part, hlanguage, hpart, rfl⟩
    have hsecond := (hf b (part' ++ rest) c rest).mpr ⟨second, part', hlanguage', hpart', rfl⟩
    rw [List.append_assoc, hfirst]
    exact hsecond

section Tokens

variable [DecidableEq α] {token : List α}

theorem isPrefixOf_eq_true {token rest : List α} :
    token.isPrefixOf rest = true ↔ ∃ tail, rest = token ++ tail := by
  rw [List.isPrefixOf_iff_prefix]
  exact ⟨fun ⟨tail, h⟩ => ⟨tail, h.symm⟩, fun ⟨tail, h⟩ => ⟨tail, h.symm⟩⟩

/-- A token that does not start with a space comes next exactly after spaces. -/
theorem token_next {a : α} {t input : List α} (ha : space a = false) :
    (a :: t).isPrefixOf (input.dropWhile space) = true ↔
      ∃ spaces tail, (∀ b ∈ spaces, space b = true) ∧ input = spaces ++ ((a :: t) ++ tail) := by
  rw [isPrefixOf_eq_true]
  constructor
  · rintro ⟨tail, htail⟩
    refine ⟨input.takeWhile space, tail, spaces_takeWhile input, ?_⟩
    rw [← htail, List.takeWhile_append_dropWhile]
  · rintro ⟨spaces, tail, hspaces, rfl⟩
    exact ⟨tail, dropWhile_spaces hspaces ha⟩

omit [DecidableEq α] in
theorem drop_token {a : α} {t spaces tail : List α} (ha : space a = false)
    (hspaces : ∀ b ∈ spaces, space b = true) :
    ((spaces ++ ((a :: t) ++ tail)).dropWhile space).drop (a :: t).length = tail := by
  rw [List.cons_append, dropWhile_spaces hspaces ha, ← List.cons_append, List.drop_left]

theorem Reads.expect {e : ε} {a : α} {t : List α} (ha : space a = false) :
    Reads space (expect space e (a :: t)) fun _ tokens => tokens = [a :: t] := by
  intro input b rest
  simp only [Readers.expect]
  constructor
  · intro h
    split at h
    · next hnext =>
        obtain ⟨spaces, tail, hspaces, rfl⟩ := (token_next ha).mp hnext
        rw [drop_token ha hspaces] at h
        obtain ⟨-, rfl⟩ := Prod.mk.inj (Except.ok.inj h)
        refine ⟨[a :: t], spaces ++ ((a :: t) ++ []), rfl, .cons hspaces .nil, ?_⟩
        simp only [List.append_nil, List.append_assoc]
    · cases h
  · rintro ⟨tokens, part, rfl, hlaid, rfl⟩
    cases hlaid with
    | @cons spaces _ tail _ hspaces hrest =>
        cases hrest
        have hinput : spaces ++ ((a :: t) ++ []) ++ rest = spaces ++ ((a :: t) ++ rest) := by
          simp only [List.append_nil, List.append_assoc]
        rw [hinput, if_pos ((token_next ha).mpr ⟨spaces, rest, hspaces, rfl⟩),
          drop_token ha hspaces]

/-- A choice by the next token, where the other branch starts with another symbol. -/
theorem Reads.choice {x y : StateT (List α) (Except ε) β}
    {language language' : β → List (List α) → Prop} {a : α} {t : List α} (ha : space a = false)
    (hx : Reads space x language) (hy : Reads space y language')
    (hother : ∀ b tokens, language' b tokens →
      ∃ a' t' tokens', tokens = (a' :: t') :: tokens' ∧ space a' = false ∧ a' ≠ a) :
    Reads space (do if ← accept space (a :: t) then x else y) fun b tokens =>
      (∃ tokens', tokens = (a :: t) :: tokens' ∧ language b tokens') ∨ language' b tokens := by
  intro input b rest
  have hstep : (do if ← accept space (a :: t) then x else y) input =
      if (a :: t).isPrefixOf (input.dropWhile space) then
        x ((input.dropWhile space).drop (a :: t).length) else y input := by
    change (accept space (a :: t) input).bind (fun p => (if p.1 then x else y) p.2) = _
    simp only [accept]
    split <;> rfl
  rw [hstep]
  constructor
  · intro h
    split at h
    · next hnext =>
        obtain ⟨spaces, tail, hspaces, rfl⟩ := (token_next ha).mp hnext
        rw [drop_token ha hspaces] at h
        obtain ⟨tokens, part, hlanguage, hlaid, rfl⟩ := (hx _ _ _).mp h
        refine ⟨(a :: t) :: tokens, _, .inl ⟨tokens, rfl, hlanguage⟩, .cons hspaces hlaid, ?_⟩
        simp only [List.append_assoc]
    · obtain ⟨tokens, part, hlanguage, hlaid, rfl⟩ := (hy _ _ _).mp h
      exact ⟨tokens, part, .inr hlanguage, hlaid, rfl⟩
  · rintro ⟨_, part, hlanguage, hlaid, rfl⟩
    rcases hlanguage with ⟨tokens, rfl, hlanguage⟩ | hlanguage
    · cases hlaid with
      | @cons spaces _ tail _ hspaces hrest =>
          have hinput : spaces ++ ((a :: t) ++ tail) ++ rest =
              spaces ++ ((a :: t) ++ (tail ++ rest)) := by
            simp only [List.append_assoc]
          rw [hinput, if_pos ((token_next ha).mpr ⟨spaces, _, hspaces, rfl⟩), drop_token ha hspaces]
          exact (hx _ _ _).mpr ⟨tokens, tail, hlanguage, hrest, rfl⟩
    · obtain ⟨a', t', tokens', rfl, ha', hne⟩ := hother b _ hlanguage
      rw [if_neg]
      · exact (hy _ _ _).mpr ⟨_, part, hlanguage, hlaid, rfl⟩
      · intro hnext
        cases hlaid with
        | @cons spaces _ tail _ hspaces hrest =>
            rw [isPrefixOf_eq_true] at hnext
            obtain ⟨tail', htail⟩ := hnext
            have hinput : spaces ++ ((a' :: t') ++ tail) ++ rest =
                spaces ++ a' :: (t' ++ (tail ++ rest)) := by
              simp only [List.append_assoc, List.cons_append]
            rw [hinput, dropWhile_spaces hspaces ha'] at htail
            exact hne (List.cons.inj htail).1

/-- A text between delimiters fits the room and has neither refused symbols nor the closing
delimiter in it. -/
structure Fits (closing : α) (ok : α → Bool) (room : ℕ) (text : List α) : Prop where
  symbols : ∀ a ∈ text, a ≠ closing ∧ ok a = true
  length : text.length ≤ room

theorem textUntil_eq_some_iff {closing : α} {ok : α → Bool} {input text rest : List α} {room : ℕ} :
    textUntil closing ok input room = some (text, rest) ↔
      Fits closing ok room text ∧ input = text ++ closing :: rest := by
  induction input generalizing text room with
  | nil => simp [textUntil]
  | cons a input ih =>
      rw [textUntil]
      by_cases hclosing : a = closing
      · rw [if_pos hclosing]
        constructor
        · intro h
          obtain ⟨rfl, rfl⟩ := Prod.mk.inj (Option.some.inj h)
          exact ⟨⟨by simp, Nat.zero_le _⟩, by rw [hclosing, List.nil_append]⟩
        · rintro ⟨hfits, hinput⟩
          cases text with
          | nil => rw [(List.cons.inj hinput).2]
          | cons b text =>
              obtain ⟨rfl, -⟩ := List.cons.inj hinput
              exact absurd hclosing (hfits.symbols a List.mem_cons_self).1
      rw [if_neg hclosing]
      constructor
      · intro h
        split at h
        · cases h
        next hok =>
        split at h
        · cases h
        next hroom =>
        obtain ⟨⟨text', rest'⟩, hrest, hsame⟩ := Option.map_eq_some_iff.mp h
        obtain ⟨rfl, rfl⟩ := Prod.mk.inj hsame
        obtain ⟨hfits, rfl⟩ := ih.mp hrest
        refine ⟨⟨fun b hb => ?_, ?_⟩, rfl⟩
        · rcases List.mem_cons.mp hb with rfl | hb
          · exact ⟨hclosing, by simpa using hok⟩
          · exact hfits.symbols b hb
        · have hlength := hfits.length
          simp only [List.length_cons]
          omega
      · rintro ⟨hfits, hinput⟩
        cases text with
        | nil => exact absurd (List.cons.inj hinput).1 hclosing
        | cons b text =>
            rw [List.cons_append] at hinput
            obtain ⟨rfl, rfl⟩ := List.cons.inj hinput
            have hlength := hfits.length
            rw [List.length_cons] at hlength
            have hok : ¬(!ok a) = true := by
              simp [(hfits.symbols a List.mem_cons_self).2]
            have hrest : textUntil closing ok (text ++ closing :: rest) (room - 1) =
                some (text, rest) := by
              refine ih.mpr ⟨⟨fun c hc => hfits.symbols c (List.mem_cons_of_mem a hc), ?_⟩, rfl⟩
              omega
            have hroom : ¬room = 0 := by omega
            rw [if_neg hok, if_neg hroom, hrest, Option.map_some]

theorem Reads.delimited {e : ε} {opening closing : α} {ok : α → Bool} {room : ℕ}
    (hopening : space opening = false) :
    Reads space (delimited space e opening closing ok room) fun text tokens =>
      Fits closing ok room text ∧ tokens = [opening :: (text ++ [closing])] := by
  intro input text rest
  simp only [Readers.delimited]
  constructor
  · intro h
    split at h
    · cases h
    next a tail htail =>
    split at h
    · cases h
    next ha =>
    split at h
    · cases h
    next p htext =>
    obtain rfl := Except.ok.inj h
    obtain rfl := not_not.mp ha
    obtain ⟨hfits, rfl⟩ := textUntil_eq_some_iff.mp htext
    refine ⟨_, input.takeWhile space ++ ((a :: (text ++ [closing])) ++ []), ⟨hfits, rfl⟩,
      .cons (spaces_takeWhile input) .nil, ?_⟩
    have hsplit := (List.takeWhile_append_dropWhile (p := space) (l := input)).symm
    rw [htail] at hsplit
    simpa using hsplit
  · rintro ⟨tokens, part, ⟨hfits, rfl⟩, hlaid, rfl⟩
    cases hlaid with
    | @cons spaces _ tail _ hspaces hrest =>
        cases hrest
        have hinput : spaces ++ (opening :: (text ++ [closing]) ++ []) ++ rest =
            spaces ++ opening :: (text ++ closing :: rest) := by
          simp
        have htext : textUntil closing ok (text ++ closing :: rest) room = some (text, rest) :=
          textUntil_eq_some_iff.mpr ⟨hfits, rfl⟩
        simp only [hinput, dropWhile_spaces hspaces hopening, ne_eq, not_true_eq_false, if_false,
          htext]

end Tokens

end Readers
