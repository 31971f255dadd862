import StnChain.AddressText
import StnChain.Support.Readers

/-!
# Configuration

The strict JSON subset of the configuration file (`stn_config.c`).  `configDecode_iff` says
which texts are accepted and what they mean: the layouts of a document, which has at most one
section with at most one setting of a kind.
-/

namespace StnChain

/-! ## The decoder -/

/-- `stn_config`; the wallet is absent unless `has_miner_wallet` is set. -/
structure Config where
  internalMinerEnabled : Bool
  minerWallet : Option Address
  deriving DecidableEq

/-- `STN_CONFIG_MAX_BYTES`. -/
def configMaxBytes : ℕ := 4096

/-- What the decoder has found: the configuration and which keys it has seen. -/
structure ConfigState where
  config : Config
  seenMiner : Bool
  seenEnabled : Bool
  seenWallet : Bool

/-- Nothing is found yet. -/
def configInitial : ConfigState :=
  ⟨⟨false, none⟩, false, false, false⟩

/-- Where the decoder stands in the text. -/
abbrev ConfigReader : Type → Type := StateT Bytes (Except DataStatus)

/-- What `ws` skips. -/
def configSpace (c : UInt8) : Bool :=
  c = 0x20 || c = 0x09 || c = 0x0d || c = 0x0a

/-- What `str` takes between quotation marks. -/
def configSymbol (c : UInt8) : Bool :=
  0x20 ≤ c && c ≠ 0x5c

/-- `ch`, where a missing character is a failure. -/
def configCh (c : UInt8) : ConfigReader Unit :=
  Readers.expect configSpace .content [c]

/-- `str`, where a failure ends the decoding; one octet of the buffer is the terminator. -/
def configStr (capacity : ℕ) : ConfigReader Bytes :=
  Readers.delimited configSpace .content 0x22 0x22 configSymbol (capacity - 1)

/-- The value of `enabled`. -/
def configLit : ConfigReader Bool := do
  if ← Readers.accept configSpace (ascii "true") then return true
  else do
    Readers.expect configSpace .content (ascii "false")
    return false

/-- The wallet of the miner. -/
def configWallet (s : ConfigState) (value : Bytes) : ConfigReader ConfigState :=
  match addressDecode value with
  | .error _ => throw .type
  | .ok address =>
      if address.type ≠ .wallet then throw .type
      else return { s with
        config := { s.config with minerWallet := some address }
        seenWallet := true }

/-- The value of a setting of the miner. -/
def configSetting (s : ConfigState) (key : Bytes) : ConfigReader ConfigState :=
  if key = ascii "enabled" then
    if s.seenEnabled then throw .content
    else do
      let enabled ← configLit
      return { s with
        config := { s.config with internalMinerEnabled := enabled }
        seenEnabled := true }
  else if key = ascii "wallet" then
    if s.seenWallet then throw .content
    else do
      let value ← configStr addressTextCapacity
      configWallet s value
  else throw .content

/-- A setting of the miner. -/
def configMinerMember (s : ConfigState) : ConfigReader ConfigState := do
  let key ← configStr 64
  configCh 0x3a
  configSetting s key

/-- The inner loop of `stn_config_decode`.  Each turn reads octets, so the length of the text is
a bound on the turns. -/
def configMinerMembers : ℕ → ConfigState → ConfigReader ConfigState
  | 0, _ => throw .content
  | turns + 1, s => do
      let s ← configMinerMember s
      if ← Readers.accept configSpace [0x2c] then configMinerMembers turns s
      else do
        configCh 0x7d
        return s

/-- The outer loop of `stn_config_decode`. -/
def configMembers (bound : ℕ) : ℕ → ConfigState → ConfigReader ConfigState
  | 0, _ => throw .content
  | turns + 1, s => do
      let key ← configStr 64
      configCh 0x3a
      if key = ascii "internal_miner" then
        if s.seenMiner then throw .content
        else do
          configCh 0x7b
          let s ← configMinerMembers bound { s with seenMiner := true }
          if ← Readers.accept configSpace [0x2c] then configMembers bound turns s
          else do
            configCh 0x7d
            return s
      else throw .content

/-- The text of `stn_config_decode` but for what follows its last brace. -/
def configObject (bound : ℕ) : ConfigReader ConfigState := do
  configCh 0x7b
  if ← Readers.accept configSpace [0x7d] then return configInitial
  else configMembers bound bound configInitial

/-- `stn_config_decode`. -/
def configDecode (bytes : Bytes) : Except DataStatus Config :=
  if bytes.length = 0 ∨ bytes.length > configMaxBytes then .error .content
  else
    match configObject bytes.length bytes with
    | .error status => .error status
    | .ok (s, rest) =>
        if rest.dropWhile configSpace ≠ [] then .error .content
        else if s.config.internalMinerEnabled ∧ s.config.minerWallet = none then .error .content
        else .ok s.config

/-! ## Documents -/

/-- A setting of the miner section. -/
inductive Setting
  | enabled (on : Bool)
  | wallet (text : Bytes)
  deriving DecidableEq

/-- The tokens of a text in quotation marks. -/
def quoted (text : Bytes) : Bytes :=
  0x22 :: (text ++ [0x22])

def Setting.key : Setting → Bytes
  | .enabled _ => ascii "enabled"
  | .wallet _ => ascii "wallet"

def Setting.value : Setting → Bytes
  | .enabled on => if on then ascii "true" else ascii "false"
  | .wallet text => quoted text

def Setting.tokens (m : Setting) : List Bytes :=
  [quoted m.key, [0x3a], m.value]

/-- The wallet a setting selects. -/
def Setting.address : Setting → Option Address
  | .enabled _ => none
  | .wallet text => (addressDecode text).toOption

def Setting.isWallet : Setting → Bool
  | .enabled _ => false
  | .wallet _ => true

/-- The text of a wallet is that of a wallet address. -/
def Setting.Valid : Setting → Prop
  | .enabled _ => True
  | .wallet text => addressOfType .wallet text = true

/-- A document: no section, or the settings of the miner section. -/
abbrev ConfigDocument : Type := Option (List Setting)

def ConfigDocument.tokens : ConfigDocument → List Bytes
  | none => [[0x7b], [0x7d]]
  | some settings =>
      [[0x7b], quoted (ascii "internal_miner"), [0x3a], [0x7b]] ++
        [[0x2c]].intercalate (settings.map Setting.tokens) ++ [[0x7d]] ++ [[0x7d]]

/-- What a document configures. -/
def ConfigDocument.config (document : ConfigDocument) : Config where
  internalMinerEnabled := (document.getD []).contains (.enabled true)
  minerWallet := (document.getD []).findSome? Setting.address

/-- A section has settings of different kinds, and a miner that is enabled has a wallet. -/
structure ConfigDocument.Valid (document : ConfigDocument) : Prop where
  nonempty : document ≠ some []
  kinds : (document.getD []).Pairwise fun m m' => m.isWallet ≠ m'.isWallet
  settings : ∀ m ∈ document.getD [], m.Valid
  wallet : document.config.internalMinerEnabled = true → document.config.minerWallet ≠ none

/-! ## Tokens -/

section Tokens

open Readers

/-- A text the decoder reads between quotation marks. -/
abbrev Quotable (capacity : ℕ) (text : Bytes) : Prop :=
  Fits 0x22 configSymbol (capacity - 1) text

theorem symbols_of_all {text : Bytes}
    (h : text.all (fun c => c ≠ 0x22 && configSymbol c) = true) :
    ∀ c ∈ text, c ≠ 0x22 ∧ configSymbol c = true := by
  intro c hc
  simpa using List.all_eq_true.mp h c hc

theorem configSymbol_of_nibble {c : UInt8} {n : ℕ} (h : nibble c = some n) :
    c ≠ 0x22 ∧ configSymbol c = true := by
  have hall : ∀ k : Fin 256, nibble (UInt8.ofNat k) ≠ none →
      UInt8.ofNat k ≠ 0x22 ∧ configSymbol (UInt8.ofNat k) = true := by decide +kernel
  have hc : UInt8.ofNat c.toNat = c := UInt8.ofNat_toNat
  have hsome : nibble (UInt8.ofNat c.toNat) ≠ none := by
    rw [hc, h]
    exact Option.some_ne_none n
  have hfits := hall ⟨c.toNat, c.toNat_lt⟩ hsome
  rwa [hc] at hfits

theorem configSymbol_of_hexPairs {text bytes : Bytes} (h : hexPairs text = some bytes) :
    ∀ c ∈ text, c ≠ 0x22 ∧ configSymbol c = true := by
  induction text using hexPairs.induct generalizing bytes with
  | case1 => simp
  | case2 => cases h
  | case3 high low rest h' l' bytes' hrest hlow hhigh ih =>
      intro c hc
      rcases List.mem_cons.mp hc with rfl | hc
      · exact configSymbol_of_nibble hhigh
      rcases List.mem_cons.mp hc with rfl | hc
      · exact configSymbol_of_nibble hlow
      · exact ih hrest c hc
  | case4 high low rest hnone ih =>
      rw [hexPairs] at h
      split at h
      · next h' l' bytes' hhigh hlow hrest => exact absurd hrest (hnone h' l' bytes' hhigh hlow)
      · cases h

/-- An address text can stand between quotation marks. -/
theorem quotable_address {type : AddressType} {text : Bytes}
    (h : addressOfType type text = true) : Quotable addressTextCapacity text := by
  simp only [addressOfType, addressDecode] at h
  split at h
  · next address hdecode =>
      split at hdecode
      · cases hdecode
      next hsize =>
      split at hdecode
      · cases hdecode
      next type' hlabelled =>
      split at hdecode
      · cases hdecode
      split at hdecode
      · cases hdecode
      next identifier hpairs =>
      have hlabel : text.take type'.label.length = type'.label := by
        simp only [labelled] at hlabelled
        split at hlabelled
        · next htake =>
            rw [← Option.some.inj hlabelled]
            exact htake
        split at hlabelled
        · next htake =>
            rw [← Option.some.inj hlabelled]
            exact htake
        split at hlabelled
        · next htake =>
            rw [← Option.some.inj hlabelled]
            exact htake
        · cases hlabelled
      have hletters : ∀ c ∈ type'.label, c ≠ 0x22 ∧ configSymbol c = true := by
        apply symbols_of_all
        cases type' <;> rfl
      refine ⟨fun c hc => ?_, ?_⟩
      · rw [← List.take_append_drop type'.label.length text, hlabel, List.mem_append] at hc
        rcases hc with hc | hc
        · exact hletters c hc
        · exact configSymbol_of_hexPairs hpairs c hc
      · simp only [addressTextCapacity]
        omega
  · cases h

theorem configCh_reads {c : UInt8} (hc : configSpace c = false) :
    Reads configSpace (configCh c) fun _ tokens => tokens = [[c]] :=
  Reads.expect hc

theorem configStr_reads (capacity : ℕ) :
    Reads configSpace (configStr capacity) fun text tokens =>
      Quotable capacity text ∧ tokens = [quoted text] :=
  Reads.delimited rfl

theorem configLit_reads : Reads configSpace configLit fun on tokens =>
    tokens = [if on then ascii "true" else ascii "false"] := by
  have htrue : ascii "true" = 0x74 :: ascii "rue" := rfl
  have hfalse : ascii "false" = 0x66 :: ascii "alse" := rfl
  have hother : Reads configSpace (do
      expect configSpace .content (ascii "false")
      return false : ConfigReader Bool) fun on tokens => on = false ∧ tokens = [ascii "false"] := by
    rw [hfalse]
    refine (Reads.bind (Reads.expect rfl) fun _ => Reads.pure false).congr fun on tokens => ?_
    constructor
    · rintro ⟨-, first, rest, rfl, ⟨rfl, rfl⟩, rfl⟩
      exact ⟨rfl, rfl⟩
    · rintro ⟨rfl, rfl⟩
      exact ⟨(), _, [], rfl, ⟨rfl, rfl⟩, rfl⟩
  rw [configLit, htrue]
  refine (Reads.choice rfl (Reads.pure true) hother ?_).congr ?_
  · rintro on tokens ⟨-, rfl⟩
    exact ⟨0x66, ascii "alse", [], rfl, rfl, by decide⟩
  · intro on tokens
    constructor
    · rintro (⟨tokens', rfl, rfl, rfl⟩ | ⟨rfl, rfl⟩)
      · rfl
      · rfl
    · rintro rfl
      cases on with
      | true => exact .inl ⟨[], rfl, rfl, rfl⟩
      | false => exact .inr ⟨rfl, rfl⟩

/-! ## Members -/

/-- The state after a setting. -/
def ConfigState.add (s : ConfigState) : Setting → ConfigState
  | .enabled on =>
      { s with config := { s.config with internalMinerEnabled := on }, seenEnabled := true }
  | .wallet text =>
      { s with
        config := { s.config with minerWallet := (addressDecode text).toOption }
        seenWallet := true }

/-- The key of a setting has been seen. -/
def ConfigState.seen (s : ConfigState) : Setting → Bool
  | .enabled _ => s.seenEnabled
  | .wallet _ => s.seenWallet

theorem keys_differ : ascii "enabled" ≠ ascii "wallet" := by decide

theorem Setting.quotable_key (m : Setting) : Quotable 64 m.key := by
  have henabled : Quotable 64 (ascii "enabled") := ⟨symbols_of_all rfl, by decide⟩
  have hwallet : Quotable 64 (ascii "wallet") := ⟨symbols_of_all rfl, by decide⟩
  cases m with
  | enabled on => exact henabled
  | wallet text => exact hwallet

theorem configWallet_reads (s : ConfigState) (value : Bytes) :
    Reads configSpace (configWallet s value) fun s' tokens =>
      addressOfType .wallet value = true ∧ tokens = [] ∧ s' = s.add (.wallet value) := by
  simp only [configWallet, addressOfType, ConfigState.add]
  cases addressDecode value with
  | error status => exact (Reads.throw _).congr (by simp)
  | ok address =>
      by_cases htype : address.type = .wallet
      · simp only [htype, ne_eq, not_true_eq_false, if_false]
        refine (Reads.pure _).congr fun s' tokens => ?_
        simp only [decide_true, true_and, Except.toOption]
        exact and_comm
      · simp only [htype, ne_eq, not_false_eq_true, if_true]
        exact (Reads.throw _).congr (by simp)

theorem configSetting_reads (s : ConfigState) (key : Bytes) :
    Reads configSpace (configSetting s key) fun s' tokens =>
      ∃ m : Setting, m.key = key ∧ m.Valid ∧ s.seen m = false ∧ tokens = [m.value] ∧
        s' = s.add m := by
  rw [configSetting]
  by_cases henabled : key = ascii "enabled"
  · subst henabled
    rw [if_pos rfl]
    split
    · next hseen =>
        refine (Reads.throw _).congr fun s' tokens => ⟨False.elim, ?_⟩
        rintro ⟨m, hm, -, hunseen, -⟩
        cases m with
        | enabled on => exact Bool.false_ne_true (hunseen.symm.trans hseen)
        | wallet text => exact keys_differ hm.symm
    · next hseen =>
        refine (Reads.bind configLit_reads fun _ => Reads.pure _).congr fun s' tokens => ?_
        constructor
        · rintro ⟨on, first, rest, rfl, ⟨rfl, rfl⟩, rfl⟩
          exact ⟨.enabled on, rfl, trivial, Bool.eq_false_iff.mpr hseen, rfl, rfl⟩
        · rintro ⟨m, hm, -, -, rfl, rfl⟩
          cases m with
          | enabled on => exact ⟨on, _, [], rfl, ⟨rfl, rfl⟩, rfl⟩
          | wallet text => exact absurd hm.symm keys_differ
  rw [if_neg henabled]
  by_cases hwallet : key = ascii "wallet"
  · subst hwallet
    rw [if_pos rfl]
    split
    · next hseen =>
        refine (Reads.throw _).congr fun s' tokens => ⟨False.elim, ?_⟩
        rintro ⟨m, hm, -, hunseen, -⟩
        cases m with
        | enabled on => exact keys_differ hm
        | wallet text => exact Bool.false_ne_true (hunseen.symm.trans hseen)
    · next hseen =>
        refine (Reads.bind (configStr_reads _) (configWallet_reads s)).congr fun s' tokens => ?_
        constructor
        · rintro ⟨value, first, rest, ⟨-, rfl⟩, ⟨haddress, rfl, rfl⟩, rfl⟩
          exact ⟨.wallet value, rfl, haddress, Bool.eq_false_iff.mpr hseen, rfl, rfl⟩
        · rintro ⟨m, hm, hvalid, -, rfl, rfl⟩
          cases m with
          | enabled on => exact absurd hm keys_differ
          | wallet text =>
              exact ⟨text, _, [], ⟨quotable_address hvalid, rfl⟩, ⟨hvalid, rfl, rfl⟩, rfl⟩
  rw [if_neg hwallet]
  refine (Reads.throw _).congr fun s' tokens => ⟨False.elim, ?_⟩
  rintro ⟨m, rfl, -⟩
  cases m with
  | enabled on => exact henabled rfl
  | wallet text => exact hwallet rfl

theorem configMinerMember_reads (s : ConfigState) :
    Reads configSpace (configMinerMember s) fun s' tokens =>
      ∃ m : Setting, m.Valid ∧ s.seen m = false ∧ tokens = m.tokens ∧ s' = s.add m := by
  refine (Reads.bind (configStr_reads 64) fun key =>
    Reads.bind (configCh_reads rfl) fun _ => configSetting_reads s key).congr fun s' tokens => ?_
  constructor
  · rintro ⟨key, first, rest, ⟨-, rfl⟩, ⟨-, second, rest', rfl, ⟨m, rfl, hm⟩, rfl⟩, rfl⟩
    obtain ⟨hvalid, hseen, rfl, rfl⟩ := hm
    exact ⟨m, hvalid, hseen, rfl, rfl⟩
  · rintro ⟨m, hvalid, hseen, rfl, rfl⟩
    exact ⟨m.key, _, _, ⟨m.quotable_key, rfl⟩,
      ⟨(), _, _, rfl, ⟨m, rfl, hvalid, hseen, rfl, rfl⟩, rfl⟩, rfl⟩

/-- The brace at the end of an object. -/
theorem configClose_reads (s : ConfigState) : Reads configSpace (do
    configCh 0x7d
    return s : ConfigReader ConfigState) fun s' tokens => s' = s ∧ tokens = [[0x7d]] := by
  refine (Reads.bind (configCh_reads rfl) fun _ => Reads.pure s).congr fun s' tokens => ?_
  constructor
  · rintro ⟨-, first, rest, rfl, ⟨rfl, rfl⟩, rfl⟩
    exact ⟨rfl, rfl⟩
  · rintro ⟨rfl, rfl⟩
    exact ⟨(), _, [], rfl, ⟨rfl, rfl⟩, rfl⟩

/-- Some settings that are valid one after another, with the state after them. -/
def ConfigState.Takes (s : ConfigState) : List Setting → ConfigState → Prop
  | [], s' => s' = s
  | m :: rest, s' => m.Valid ∧ s.seen m = false ∧ (s.add m).Takes rest s'

/-- Separated settings with a brace behind them. -/
def settingsTokens (settings : List Setting) : List Bytes :=
  [[0x2c]].intercalate (settings.map Setting.tokens) ++ [[0x7d]]

theorem configMinerMembers_reads (turns : ℕ) (s : ConfigState) :
    Reads configSpace (configMinerMembers turns s) fun s' tokens =>
      ∃ settings, settings ≠ [] ∧ settings.length ≤ turns ∧ s.Takes settings s' ∧
        tokens = settingsTokens settings := by
  induction turns generalizing s with
  | zero =>
      refine (Reads.throw _).congr fun s' tokens => ⟨False.elim, ?_⟩
      rintro ⟨settings, hne, hlength, -⟩
      exact hne (List.length_eq_zero_iff.mp (Nat.le_zero.mp hlength))
  | succ turns ih =>
      have hnext (s : ConfigState) := Reads.choice (a := 0x2c) (t := []) rfl
        (ih s) (configClose_reads s) (by
          rintro s' tokens ⟨-, rfl⟩
          exact ⟨0x7d, [], [], rfl, rfl, by decide⟩)
      refine (Reads.bind (configMinerMember_reads s) hnext).congr fun s' tokens => ?_
      constructor
      · rintro ⟨s₁, first, rest, ⟨m, hvalid, hseen, rfl, rfl⟩, hrest, rfl⟩
        rcases hrest with ⟨tokens', rfl, settings, hne, hlength, htakes, rfl⟩ | ⟨rfl, rfl⟩
        · refine ⟨m :: settings, by simp, by simpa using hlength, ⟨hvalid, hseen, htakes⟩, ?_⟩
          obtain ⟨m', settings, rfl⟩ := List.exists_cons_of_ne_nil hne
          simp [settingsTokens, List.intercalate_cons_cons]
        · refine ⟨[m], by simp, by simp, ⟨hvalid, hseen, rfl⟩, ?_⟩
          simp [settingsTokens]
      · rintro ⟨settings, hne, hlength, htakes, rfl⟩
        obtain ⟨m, settings, rfl⟩ := List.exists_cons_of_ne_nil hne
        obtain ⟨hvalid, hseen, hrest⟩ := htakes
        cases settings with
        | nil =>
            refine ⟨s.add m, m.tokens, [[0x7d]], ⟨m, hvalid, hseen, rfl, rfl⟩,
              .inr ⟨hrest, rfl⟩, ?_⟩
            simp [settingsTokens]
        | cons m' settings =>
            refine ⟨s.add m, m.tokens, [0x2c] :: settingsTokens (m' :: settings),
              ⟨m, hvalid, hseen, rfl, rfl⟩, .inl ⟨_, rfl, m' :: settings, by simp,
                by simpa using hlength, hrest, rfl⟩, ?_⟩
            simp [settingsTokens, List.intercalate_cons_cons]

/-- The section of some settings, with the brace of the document behind it. -/
def sectionTokens (settings : List Setting) : List Bytes :=
  [quoted (ascii "internal_miner"), [0x3a], [0x7b]] ++ settingsTokens settings ++ [[0x7d]]

theorem takes_seenMiner {s s' : ConfigState} {settings : List Setting}
    (h : s.Takes settings s') : s'.seenMiner = s.seenMiner := by
  induction settings generalizing s with
  | nil => rw [h]
  | cons m rest ih =>
      have hadd : (s.add m).seenMiner = s.seenMiner := by
        cases m with
        | enabled on => rfl
        | wallet text => rfl
      rw [ih h.2.2, hadd]

/-- A second section is refused. -/
theorem configMembers_reads (bound turns : ℕ) (s : ConfigState) :
    Reads configSpace (configMembers bound turns s) fun s' tokens =>
      0 < turns ∧ s.seenMiner = false ∧ ∃ settings, settings ≠ [] ∧ settings.length ≤ bound ∧
        ({ s with seenMiner := true } : ConfigState).Takes settings s' ∧
          tokens = sectionTokens settings := by
  induction turns generalizing s with
  | zero => exact (Reads.throw _).congr (by simp)
  | succ turns ih =>
      have hnext (s : ConfigState) := Reads.choice (a := 0x2c) (t := []) rfl
        (ih s) (configClose_reads s) (by
          rintro s' tokens ⟨-, rfl⟩
          exact ⟨0x7d, [], [], rfl, rfl, by decide⟩)
      have hbody (key : Bytes) : Reads configSpace (if key = ascii "internal_miner" then
            if s.seenMiner then throw .content
            else do
              configCh 0x7b
              let s ← configMinerMembers bound { s with seenMiner := true }
              if ← accept configSpace [0x2c] then configMembers bound turns s
              else do
                configCh 0x7d
                return s
          else throw .content : ConfigReader ConfigState) fun s' tokens =>
          key = ascii "internal_miner" ∧ s.seenMiner = false ∧ ∃ settings, settings ≠ [] ∧
            settings.length ≤ bound ∧
            ({ s with seenMiner := true } : ConfigState).Takes settings s' ∧
            tokens = [0x7b] :: (settingsTokens settings ++ [[0x7d]]) := by
        split
        · next hkey =>
            split
            · next hseen => exact (Reads.throw _).congr (by simp [hseen])
            · next hseen =>
                refine (Reads.bind (configCh_reads rfl) fun _ => Reads.bind
                  (configMinerMembers_reads bound _) hnext).congr fun s' tokens => ?_
                constructor
                · rintro ⟨-, first, rest, rfl, ⟨s₁, second, rest', hsettings, hrest, rfl⟩, rfl⟩
                  obtain ⟨settings, hne, hlength, htakes, rfl⟩ := hsettings
                  rcases hrest with ⟨tokens', -, -, hunseen, -⟩ | ⟨rfl, rfl⟩
                  · rw [takes_seenMiner htakes] at hunseen
                    cases hunseen
                  · exact ⟨hkey, Bool.eq_false_iff.mpr hseen, settings, hne, hlength, htakes, rfl⟩
                · rintro ⟨-, -, settings, hne, hlength, htakes, rfl⟩
                  exact ⟨(), _, _, rfl, ⟨s', _, _, ⟨settings, hne, hlength, htakes, rfl⟩,
                    .inr ⟨rfl, rfl⟩, rfl⟩, rfl⟩
        · next hkey => exact (Reads.throw _).congr (by simp [hkey])
      refine (Reads.bind (configStr_reads 64) fun key =>
        Reads.bind (configCh_reads rfl) fun _ => hbody key).congr fun s' tokens => ?_
      constructor
      · rintro ⟨key, first, rest, ⟨-, rfl⟩, ⟨-, second, rest', rfl, ⟨rfl, hseen, hrest⟩, rfl⟩, rfl⟩
        obtain ⟨settings, hne, hlength, htakes, rfl⟩ := hrest
        exact ⟨Nat.succ_pos turns, hseen, settings, hne, hlength, htakes, rfl⟩
      · rintro ⟨-, hseen, settings, hne, hlength, htakes, rfl⟩
        have hkey : Quotable 64 (ascii "internal_miner") := ⟨symbols_of_all rfl, by decide⟩
        exact ⟨_, _, _, ⟨hkey, rfl⟩,
          ⟨(), _, _, rfl, ⟨rfl, hseen, settings, hne, hlength, htakes, rfl⟩, rfl⟩, rfl⟩

theorem configObject_reads (bound : ℕ) :
    Reads configSpace (configObject bound) fun s' tokens =>
      (s' = configInitial ∧ tokens = [[0x7b], [0x7d]]) ∨
      (0 < bound ∧ ∃ settings, settings ≠ [] ∧ settings.length ≤ bound ∧
        ({ configInitial with seenMiner := true } : ConfigState).Takes settings s' ∧
          tokens = [0x7b] :: sectionTokens settings) := by
  have hnext := Reads.choice (a := 0x7d) (t := []) rfl
    (Reads.pure configInitial) (configMembers_reads bound bound configInitial) (by
      rintro s' tokens ⟨-, -, settings, -, -, -, rfl⟩
      exact ⟨0x22, _, _, rfl, rfl, by decide⟩)
  refine (Reads.bind (configCh_reads rfl) fun _ => hnext).congr fun s' tokens => ?_
  constructor
  · rintro ⟨-, first, rest, rfl, ⟨tokens', rfl, rfl, rfl⟩ | ⟨hpos, -, hrest⟩, rfl⟩
    · exact .inl ⟨rfl, rfl⟩
    · obtain ⟨settings, hne, hlength, htakes, rfl⟩ := hrest
      exact .inr ⟨hpos, settings, hne, hlength, htakes, rfl⟩
  · rintro (⟨rfl, rfl⟩ | ⟨hpos, settings, hne, hlength, htakes, rfl⟩)
    · exact ⟨(), _, _, rfl, .inl ⟨[], rfl, rfl, rfl⟩, rfl⟩
    · exact ⟨(), _, _, rfl, .inr ⟨hpos, rfl, settings, hne, hlength, htakes, rfl⟩, rfl⟩

end Tokens

/-! ## Accepted texts -/

section Accepted

open Readers

/-- A text that lays out a document, with spaces between the tokens and after them. -/
def ConfigDocument.Text (document : ConfigDocument) (bytes : Bytes) : Prop :=
  ∃ part spaces, Laid configSpace document.tokens part ∧
    (∀ c ∈ spaces, configSpace c = true) ∧ bytes = part ++ spaces

variable {s s' : ConfigState} {settings : List Setting}

theorem seen_add (s : ConfigState) (m m' : Setting) :
    (s.add m).seen m' = false ↔ s.seen m' = false ∧ m.isWallet ≠ m'.isWallet := by
  cases m with
  | enabled on => cases m' <;> simp [ConfigState.seen, ConfigState.add, Setting.isWallet]
  | wallet text => cases m' <;> simp [ConfigState.seen, ConfigState.add, Setting.isWallet]

theorem takes_iff : s.Takes settings s' ↔
    settings.Pairwise (fun m m' => m.isWallet ≠ m'.isWallet) ∧
      (∀ m ∈ settings, m.Valid ∧ s.seen m = false) ∧ s' = settings.foldl ConfigState.add s := by
  induction settings generalizing s with
  | nil => simp [ConfigState.Takes]
  | cons m rest ih =>
      rw [ConfigState.Takes, ih, List.pairwise_cons, List.forall_mem_cons, List.foldl_cons]
      simp only [seen_add]
      constructor
      · rintro ⟨hvalid, hseen, hkinds, hrest, rfl⟩
        exact ⟨⟨fun m' hm' => (hrest m' hm').2.2, hkinds⟩,
          ⟨⟨hvalid, hseen⟩, fun m' hm' => ⟨(hrest m' hm').1, (hrest m' hm').2.1⟩⟩, rfl⟩
      · rintro ⟨⟨hfirst, hkinds⟩, ⟨⟨hvalid, hseen⟩, hrest⟩, rfl⟩
        exact ⟨hvalid, hseen, hkinds,
          fun m' hm' => ⟨(hrest m' hm').1, (hrest m' hm').2, hfirst m' hm'⟩, rfl⟩

/-- There are two kinds of settings, so a section has at most two. -/
theorem kinds_cases (h : settings.Pairwise fun m m' => m.isWallet ≠ m'.isWallet) :
    settings = [] ∨ (∃ m, settings = [m]) ∨
      ∃ on text, settings = [.enabled on, .wallet text] ∨
        settings = [.wallet text, .enabled on] := by
  rcases settings with _ | ⟨m, _ | ⟨m', _ | ⟨m'', rest⟩⟩⟩
  · exact .inl rfl
  · exact .inr (.inl ⟨m, rfl⟩)
  · have hne := List.rel_of_pairwise_cons h (List.mem_singleton_self m')
    cases m with
    | enabled on =>
        cases m' with
        | enabled on' => exact absurd rfl hne
        | wallet text => exact .inr (.inr ⟨on, text, .inl rfl⟩)
    | wallet text =>
        cases m' with
        | enabled on => exact .inr (.inr ⟨on, text, .inr rfl⟩)
        | wallet text' => exact absurd rfl hne
  · rw [List.pairwise_cons, List.pairwise_cons] at h
    have hfirst := h.1 m' List.mem_cons_self
    have hsecond := h.1 m'' (List.mem_cons_of_mem m' List.mem_cons_self)
    have hthird := h.2.1 m'' List.mem_cons_self
    cases hm : m.isWallet <;> cases hm' : m'.isWallet <;> cases hm'' : m''.isWallet <;> simp_all

theorem config_foldl (h : settings.Pairwise fun m m' => m.isWallet ≠ m'.isWallet) :
    (settings.foldl ConfigState.add { configInitial with seenMiner := true }).config =
      ConfigDocument.config (some settings) := by
  have hwallet (text : Bytes) : [Setting.wallet text].findSome? Setting.address =
      (addressDecode text).toOption := by
    cases haddress : (addressDecode text).toOption <;> simp [Setting.address, haddress]
  rcases kinds_cases h with rfl | ⟨m, rfl⟩ | ⟨on, text, rfl | rfl⟩
  · rfl
  · cases m with
    | enabled on => cases on <;> rfl
    | wallet text =>
        rw [ConfigDocument.config, Option.getD_some, hwallet]
        rfl
  · have hrest : [Setting.enabled on, .wallet text].findSome? Setting.address =
        (addressDecode text).toOption := hwallet text
    rw [ConfigDocument.config, Option.getD_some, hrest]
    cases on <;> rfl
  · have hrest : [Setting.wallet text, .enabled on].findSome? Setting.address =
        (addressDecode text).toOption := by
      cases haddress : (addressDecode text).toOption <;> simp [Setting.address, haddress]
    rw [ConfigDocument.config, Option.getD_some, hrest]
    cases on <;> rfl

theorem length_laid {tokens : List Bytes} {part : Bytes} (h : Laid configSpace tokens part) :
    (tokens.map List.length).sum ≤ part.length := by
  induction h with
  | nil => exact le_rfl
  | cons _ _ ih =>
      simp only [List.map_cons, List.sum_cons, List.length_append]
      omega

theorem ConfigDocument.Text.length_pos {document : ConfigDocument} {bytes : Bytes}
    (h : document.Text bytes) : 2 ≤ bytes.length := by
  obtain ⟨part, spaces, hlaid, -, rfl⟩ := h
  have hlength := length_laid hlaid
  have htokens : 2 ≤ (document.tokens.map List.length).sum := by
    cases document with
    | none => exact le_rfl
    | some settings =>
        simp only [ConfigDocument.tokens, List.append_assoc, List.cons_append, List.map_cons,
          List.sum_cons, quoted, List.length_cons]
        omega
  rw [List.length_append]
  omega

/-- A text is accepted exactly if it is short enough and lays out a valid document, and then it
means what the document configures: spaces and the order of the settings do not matter, and no
key is repeated or unknown. -/
theorem configDecode_iff (bytes : Bytes) (config : Config) :
    configDecode bytes = .ok config ↔
      bytes.length ≤ configMaxBytes ∧ ∃ document : ConfigDocument, document.Valid ∧
        document.Text bytes ∧ document.config = config := by
  have hreads := configObject_reads bytes.length bytes
  constructor
  · intro h
    simp only [configDecode] at h
    split at h
    · cases h
    next hsize =>
    split at h
    · cases h
    next s rest hobject =>
    split at h
    · cases h
    next hrest =>
    split at h
    · cases h
    next hwallet =>
    have hspaces : ∀ c ∈ rest, configSpace c = true :=
      List.dropWhile_eq_nil_iff.mp (not_not.mp hrest)
    obtain rfl := Except.ok.inj h
    obtain ⟨tokens, part, hlanguage, hlaid, hbytes⟩ := (hreads s rest).mp hobject
    refine ⟨Nat.le_of_not_lt (not_or.mp hsize).2, ?_⟩
    rcases hlanguage with ⟨rfl, rfl⟩ | ⟨-, settings, hne, -, htakes, rfl⟩
    · exact ⟨none, ⟨by simp, .nil, by simp, by simp [ConfigDocument.config]⟩,
        ⟨part, rest, hlaid, hspaces, hbytes⟩, rfl⟩
    · obtain ⟨hkinds, hvalid, rfl⟩ := takes_iff.mp htakes
      have hconfig := config_foldl hkinds
      rw [hconfig] at hwallet ⊢
      refine ⟨some settings, ⟨fun heq => hne (Option.some.inj heq), hkinds,
        fun m hm => (hvalid m hm).1, fun henabled hnone => hwallet ⟨henabled, hnone⟩⟩, ?_, rfl⟩
      exact ⟨part, rest, hlaid, hspaces, hbytes⟩
  · rintro ⟨hmax, document, hvalid, htext, rfl⟩
    have hlength := htext.length_pos
    obtain ⟨part, spaces, hlaid, hspaces, hbytes⟩ := htext
    have hsize : ¬(bytes.length = 0 ∨ bytes.length > configMaxBytes) := by omega
    have hend : ¬spaces.dropWhile configSpace ≠ [] :=
      not_not.mpr (List.dropWhile_eq_nil_iff.mpr hspaces)
    cases document with
    | none =>
        have hobject := (hreads configInitial spaces).mpr
          ⟨_, part, .inl ⟨rfl, rfl⟩, hlaid, hbytes⟩
        simp only [configDecode, if_neg hsize, hobject, if_neg hend]
        rfl
    | some settings =>
        have hkinds : settings.Pairwise fun m m' => m.isWallet ≠ m'.isWallet := hvalid.kinds
        have htakes : ({ configInitial with seenMiner := true } : ConfigState).Takes settings
            (settings.foldl ConfigState.add { configInitial with seenMiner := true }) := by
          refine takes_iff.mpr ⟨hkinds, fun m hm => ⟨hvalid.settings m hm, ?_⟩, rfl⟩
          cases m with
          | enabled on => rfl
          | wallet text => rfl
        have hne : settings ≠ [] := fun heq => hvalid.nonempty (congrArg some heq)
        have hfew : settings.length ≤ bytes.length := by
          rcases kinds_cases hkinds with rfl | ⟨m, rfl⟩ | ⟨on, text, rfl | rfl⟩
          · exact Nat.zero_le _
          · exact Nat.le_of_succ_le hlength
          · exact hlength
          · exact hlength
        have hobject := (hreads _ spaces).mpr
          ⟨_, part, .inr ⟨by omega, settings, hne, hfew, htakes, rfl⟩,
            by simpa [ConfigDocument.tokens, sectionTokens, settingsTokens] using hlaid, hbytes⟩
        have hconfig := config_foldl hkinds
        have hwallet : ¬((ConfigDocument.config (some settings)).internalMinerEnabled = true ∧
            (ConfigDocument.config (some settings)).minerWallet = none) :=
          fun ⟨henabled, hnone⟩ => hvalid.wallet henabled hnone
        simp only [configDecode, if_neg hsize, hobject, if_neg hend, hconfig, if_neg hwallet]

example : configDecode (ascii "\x7b \"internal_miner\" : \x7b\"enabled\":false\x7d\x7d\n") =
    .ok ⟨false, none⟩ := by
  decide +kernel

end Accepted

end StnChain
