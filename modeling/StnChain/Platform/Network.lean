import StnChain.Platform.Takeover
import StnChain.Support.Gossip

/-!
# Nodes of a network

Nodes of one chain that serve and synchronize with each other, next to whatever their clients,
their miners and other peers do.  A node that dials another is served from a snapshot of what
that one then stores, and takes over what it collects if it has more work.  `network_spreads`
says that the work of a node reaches every node that has heard of it, directly or through
others; `network_agrees` says that all of these store the heaviest history if nothing else is
stored meanwhile.
-/

namespace StnChain

/-! ## The network -/

/-- A connection of a node to the thread of another that serves it: the blocks of the snapshot
that the thread has taken, its session with the octets still to be received, and whether the
node has greeted it. -/
structure PeerLink where
  blocks : List Bytes
  connection : PeerSession × Bytes
  greeted : Bool

/-- What a node synchronizes with over a connection to a server of its chain. -/
def PeerLink.input [Primitives] (link : PeerLink) (c : ChainContext) (workspace : StorageWorkspace)
    (candidateCapacity : ℕ) : SyncInput (PeerSession × Bytes) where
  established := link.greeted
  transport := servedTransport c link.blocks peerMaxFrame
  connection := link.connection
  workspace := workspace
  candidateCapacity := candidateCapacity
  frameCapacity := peerMaxFrame

/-- Nodes and their connections to each other. -/
structure Network [Primitives] (κ ι σ : Type) where
  nodes : κ → Runtime ι σ
  links : κ → κ → Option PeerLink

/-- What happens in a network: a node takes a turn of its own, which may be to synchronize with
any peer; a node dials another; it synchronizes over the connection; a connection ends. -/
inductive NetworkEvent (κ ι τ : Type)
  | turn (a : κ) (event : RuntimeEvent ι τ)
  | dial (a b : κ) (known : Option (List PeerEndpoint))
  | synchronize (a b : κ) (workspace : StorageWorkspace) (candidateCapacity : ℕ)
  | closed (a b : κ)

section

variable [Primitives] {κ ι σ τ : Type} [DecidableEq κ] [DecidableEq ι]

/-- The connections with one of them changed. -/
def Network.setLink (net : Network κ ι σ) (a b : κ) (link : Option PeerLink) : Network κ ι σ :=
  { net with links := Function.update net.links a (Function.update (net.links a) b link) }

/-- The snapshot that the thread of a node takes for a new peer. -/
def Runtime.snapshot (r : Runtime ι σ) : Except StorageStatus (List Bytes) × Runtime ι σ :=
  let s := r.service
  let (blocks, p) := inboundSnapshot s.chain s.storage s.neededBytes [] (s.active, s.device)
  (blocks, { r with service := { s with device := p.2 } })

/-- An event: what it leaves, and what it does between two nodes. -/
def Network.step (net : Network κ ι σ) :
    NetworkEvent κ ι τ → Network κ ι σ × Gossip.Act κ
  | .turn a event =>
      ({ net with nodes := Function.update net.nodes a ((net.nodes a).turn event).1 }, .none)
  | .dial a b known =>
      let (snapshot, r) := (net.nodes b).snapshot
      let net := { net with nodes := Function.update net.nodes b r }
      match snapshot with
      | .error _ => (net.setLink a b none, .loses a b)
      | .ok blocks =>
          (net.setLink a b (some ⟨blocks, (inboundSession known, []), false⟩),
            if blocks = [] then .loses a b else .offers a b)
  | .synchronize a b workspace candidateCapacity =>
      match net.links a b with
      | none => (net, .loses a b)
      | some link =>
          let input := link.input (net.nodes b).service.chain workspace candidateCapacity
          let o := (net.nodes a).service.synchronize input
          let r := ((net.nodes a).turn (.synchronize input)).1
          let net := { net with nodes := Function.update net.nodes a r }
          match o.connection with
          | none => (net.setLink a b none, .loses a b)
          | some connection =>
              (net.setLink a b (some ⟨link.blocks, connection, true⟩), .hears a b)
  | .closed a b => (net.setLink a b none, .loses a b)

/-- A run of events: what it leaves, and what they did between nodes. -/
def Network.run (net : Network κ ι σ) :
    List (NetworkEvent κ ι τ) → Network κ ι σ × List (Gossip.Act κ)
  | [] => (net, [])
  | event :: rest =>
      let (next, act) := net.step event
      let (last, acts) := next.run rest
      (last, act :: acts)

variable {net : Network κ ι σ} {a b : κ}

omit [DecidableEq ι] in
theorem Network.setLink_same (link : Option PeerLink) :
    (net.setLink a b link).links a b = link := by
  simp [Network.setLink]

omit [DecidableEq ι] in
theorem Network.setLink_other {a' b' : κ} (link : Option PeerLink) (h : ¬(a' = a ∧ b' = b)) :
    (net.setLink a b link).links a' b' = net.links a' b' := by
  unfold Network.setLink
  by_cases ha : a' = a
  · have hb : b' ≠ b := fun hb => h ⟨ha, hb⟩
    rw [ha]
    simp [hb]
  · simp [ha]

end

/-! ## Sound networks -/

section

variable [Primitives] {κ ι σ τ : Type}

/-- A connection with nothing undelivered to a server of an accepted history, or of nothing. -/
structure PeerLink.Sound (c : ChainContext) (link : PeerLink) : Prop where
  waits : Waits link.greeted link.connection
  served : link.blocks ≠ [] → ∃ s, Served c link.blocks s peerMaxFrame peerMaxFrame

/-- Coherent nodes of one chain, connected to servers of accepted histories. -/
structure Network.Sound (c : ChainContext) (net : Network κ ι σ) (views : κ → StorageView) :
    Prop where
  chain : ∀ a, (net.nodes a).service.chain = c
  coherent : ∀ a, (net.nodes a).service.Coherent (views a)
  links : ∀ a b link, net.links a b = some link → link.Sound c

/-- The work that nodes store and that their connections serve. -/
def Network.levels (net : Network κ ι σ) (views : κ → StorageView) : Gossip.Levels κ ℕ where
  party a := historyWork (views a).blocks
  channel a b := (net.links a b).elim 0 fun link => historyWork link.blocks

/-- No two blocks of some histories have one header. -/
def Identifies (H : List Bytes → Prop) : Prop :=
  ∀ left right, H left → H right → ∀ x ∈ left, ∀ y ∈ right, headerOf x = headerOf y → x = y

/-- Every history that is stored or served is one of these. -/
structure Network.Among (H : List Bytes → Prop) (net : Network κ ι σ) (views : κ → StorageView) :
    Prop where
  nodes : ∀ a, H (views a).blocks
  links : ∀ a b link, net.links a b = some link → link.blocks = [] ∨ H link.blocks

/-- A step of a network that keeps it sound; a quiet one stores no history that is not stored or
served before. -/
structure NetworkEffect (c : ChainContext) (quiet : Prop) (net : Network κ ι σ)
    (views : κ → StorageView) (act : Gossip.Act κ) (next : Network κ ι σ)
    (views' : κ → StorageView) : Prop where
  sound : next.Sound c views'
  advances : ∀ a, (views a).Advances (views' a)
  raises : act.Raises (net.levels views) (next.levels views')
  among : quiet → ∀ H, Identifies H → net.Among H views → next.Among H views'

variable {c : ChainContext} {quiet : Prop} {net mid next : Network κ ι σ}
  {views views' : κ → StorageView} {v v' : StorageView} {r : Runtime ι σ} {blocks : List Bytes}

omit [Primitives] in
/-- Taken blocks are those of the history if headers identify them. -/
theorem TakenFrom.eq {H : List Bytes → Prop} (hidentifies : Identifies H)
    {stored taken : List Bytes} (hstored : H stored) (hblocks : H blocks)
    (h : TakenFrom stored blocks taken) : taken = blocks := by
  have hsame : ∀ x ∈ taken, ∀ y ∈ blocks, headerOf x = headerOf y → x = y := by
    intro x hx y hy hheader
    rcases h.origin x hx with hold | hnew
    · exact hidentifies stored blocks hstored hblocks x hold y hy hheader
    · exact hidentifies blocks blocks hblocks hblocks x hnew y hy hheader
  have hlength : taken.length = blocks.length := by
    simpa using congrArg List.length h.headers
  apply List.ext_getElem hlength
  intro i hi hi'
  have hheader := List.getElem_of_eq h.headers (by simpa using hi : i < (taken.map headerOf).length)
  rw [List.getElem_map, List.getElem_map] at hheader
  exact hsame _ (List.getElem_mem hi) _ (List.getElem_mem hi') hheader

theorem Network.Sound.party_le (h : net.Sound c views) (hnext : next.Sound c views')
    (hadvances : ∀ a, (views a).Advances (views' a)) (a : κ) :
    historyWork (views a).blocks ≤ historyWork (views' a).blocks := by
  rw [← (h.coherent a).work_eq, ← (hnext.coherent a).work_eq]
  exact (hadvances a).work_le

end

/-! ## Steps -/

section

variable [Primitives] {κ ι σ τ : Type} {c : ChainContext} {quiet : Prop}
  {net mid : Network κ ι σ} {views views' : κ → StorageView} {r : Runtime ι σ} {v : StorageView}

/-- A snapshot leaves what is stored, and has its blocks if it has any. -/
theorem Runtime.snapshot_spec (h : r.service.Coherent v) :
    r.snapshot.2.service.Coherent v ∧ r.snapshot.2.service.chain = r.service.chain ∧
      ∀ blocks, r.snapshot.1 = .ok blocks → blocks = [] ∨ blocks = v.blocks := by
  obtain ⟨image, himage, hdecode⟩ := h.stored
  have hacquire := r.service.storage.acquire_persisted r.service.device
  have hsnapshot : r.service.storage.persisted
      (inboundSnapshot r.service.chain r.service.storage r.service.neededBytes []
        (r.service.active, r.service.device)).2.2 = r.service.storage.persisted r.service.device ∧
      ∀ blocks, (inboundSnapshot r.service.chain r.service.storage r.service.neededBytes []
        (r.service.active, r.service.device)).1 = .ok blocks → blocks = [] ∨ blocks = v.blocks := by
    unfold inboundSnapshot
    split
    · next x hx =>
        rw [hx] at hacquire
        exact ⟨hacquire, by simp⟩
    next x hx =>
    rw [hx] at hacquire
    have hreleased : r.service.storage.persisted
        (r.service.storage.release (r.service.storage.read 0 x).2) =
        r.service.storage.persisted r.service.device := by
      rw [r.service.storage.release_persisted, r.service.storage.read_persisted, hacquire]
    have hholds : Holds r.service.chain r.service.storage
        (r.service.storage.release (r.service.storage.read 0 x).2) v :=
      ⟨image, hreleased.trans himage, hdecode⟩
    have hloaded := storageLoad_persisted r.service.chain r.service.storage
      (r.service.neededBytes x) (r.service.storage.release (r.service.storage.read 0 x).2)
    have hblocks : ∀ blocks, (storageLoad r.service.chain r.service.storage
        (r.service.neededBytes x)
        (r.service.storage.release (r.service.storage.read 0 x).2)).1.map StorageView.blocks =
        .ok blocks → blocks = [] ∨ blocks = v.blocks := by
      intro blocks hok
      obtain ⟨view, hview, rfl⟩ := map_eq_ok hok
      exact .inr (by rw [hholds.loaded hview])
    dsimp only [storageUses, List.foldl_nil]
    split
    · split
      · exact ⟨hreleased, fun blocks hok => .inl (Except.ok.inj hok).symm⟩
      · exact ⟨hloaded.trans hreleased, hblocks⟩
    · split
      · exact ⟨hloaded.trans hreleased, hblocks⟩
      · exact ⟨hreleased, by simp⟩
  exact ⟨h.withDevice hsnapshot.1, rfl, hsnapshot.2⟩

theorem MiningService.Coherent.serves {m : MiningService σ} (h : m.Coherent v) :
    Served m.chain v.blocks v.state peerMaxFrame peerMaxFrame := by
  obtain ⟨image, -, hdecode⟩ := h.stored
  obtain ⟨hpolicy, haccepts, -⟩ := storageDecode_image hdecode
  exact ⟨hpolicy, haccepts, storageDecode_count hdecode, le_rfl, le_rfl⟩

variable [DecidableEq κ]

/-- A node whose service changes, and what becomes of its history. -/
theorem Network.Sound.setNode (h : net.Sound c views) {a : κ} (hchain : r.service.chain = c)
    (hcoherent : r.service.Coherent v) (hadvances : (views a).Advances v) :
    ({ net with nodes := Function.update net.nodes a r } : Network κ ι σ).Sound c
        (Function.update views a v) ∧
      ∀ b, (views b).Advances (Function.update views a v b) := by
  refine ⟨⟨fun b => ?_, fun b => ?_, h.links⟩, fun b => ?_⟩
  · by_cases hb : b = a
    · simp [hb, hchain]
    · simp [hb, h.chain b]
  · by_cases hb : b = a
    · simp [hb, hcoherent]
    · simp [hb, h.coherent b]
  · by_cases hb : b = a
    · simp [hb, hadvances]
    · simp [hb, StorageView.Advances]

theorem Network.Sound.setLink (h : net.Sound c views) {a b : κ} {link : Option PeerLink}
    (hlink : ∀ served, link = some served → served.Sound c) :
    (net.setLink a b link).Sound c views := by
  refine ⟨h.chain, h.coherent, fun a' b' served hserved => ?_⟩
  by_cases hsame : a' = a ∧ b' = b
  · rw [hsame.1, hsame.2, Network.setLink_same] at hserved
    exact hlink served hserved
  · rw [Network.setLink_other link hsame] at hserved
    exact h.links a' b' served hserved

/-- A step that changes one connection, and what its act says of the levels. -/
theorem NetworkEffect.of_link (h : net.Sound c views) (hmid : mid.Sound c views')
    (hadvances : ∀ a, (views a).Advances (views' a)) (hlinks : mid.links = net.links) {a b : κ}
    {link : Option PeerLink} (hlink : ∀ served, link = some served → served.Sound c)
    {act : Gossip.Act κ}
    (hact : act = .loses a b ∨
      (∃ served, link = some served ∧ act = .offers a b ∧
        historyWork (views b).blocks ≤ historyWork served.blocks) ∨
      ∃ served, link = some served ∧ act = .hears a b ∧
        (net.levels views).channel a b ≤ historyWork served.blocks ∧
        (net.levels views).channel a b ≤ historyWork (views' a).blocks)
    (hamong : quiet → ∀ H, Identifies H → net.Among H views → (∀ a, H (views' a).blocks) ∧
      ∀ served, link = some served → served.blocks = [] ∨ H served.blocks) :
    NetworkEffect c quiet net views act (mid.setLink a b link) views' := by
  have hsound := hmid.setLink (a := a) (b := b) hlink
  have hother {a' b' : κ} (hdiffer : ¬(a' = a ∧ b' = b)) :
      (net.levels views).channel a' b' ≤ ((mid.setLink a b link).levels views').channel a' b' := by
    simp only [Network.levels, Network.setLink_other link hdiffer, hlinks, le_refl]
  have hchannel {served : PeerLink} (hserved : link = some served) :
      ((mid.setLink a b link).levels views').channel a b = historyWork served.blocks := by
    simp only [Network.levels, Network.setLink_same, hserved, Option.elim_some]
  refine ⟨hsound, hadvances, ⟨h.party_le hsound hadvances, ?_, ?_, ?_⟩, ?_⟩
  · intro a' b' hoffers hloses
    by_cases hsame : a' = a ∧ b' = b
    · obtain ⟨rfl, rfl⟩ := hsame
      rcases hact with rfl | ⟨served, -, rfl, -⟩ | ⟨served, hserved, -, hle, -⟩
      · exact absurd rfl hloses
      · exact absurd rfl hoffers
      · rw [hchannel hserved]
        exact hle
    · exact hother hsame
  · intro a' b' hoffers
    rcases hact with rfl | ⟨served, hserved, rfl, hle⟩ | ⟨served, -, rfl, -⟩
    · cases hoffers
    · obtain ⟨rfl, rfl⟩ := Gossip.Act.offers.inj hoffers
      rw [hchannel hserved]
      exact hle
    · cases hoffers
  · intro a' b' hhears
    rcases hact with rfl | ⟨served, -, rfl, -⟩ | ⟨served, -, rfl, -, hle⟩
    · cases hhears
    · cases hhears
    · obtain ⟨rfl, rfl⟩ := Gossip.Act.hears.inj hhears
      exact hle
  · intro hquiet H hidentifies hbefore
    obtain ⟨hnodes, hserved⟩ := hamong hquiet H hidentifies hbefore
    refine ⟨hnodes, fun a' b' served hlinked => ?_⟩
    by_cases hsame : a' = a ∧ b' = b
    · rw [hsame.1, hsame.2, Network.setLink_same] at hlinked
      exact hserved served hlinked
    · rw [Network.setLink_other link hsame, hlinks] at hlinked
      exact hbefore.links a' b' served hlinked

end

section

variable [Primitives] {κ ι σ τ : Type} {c : ChainContext} {net : Network κ ι σ}
  {views : κ → StorageView}

/-- The events in which nodes only dial each other and synchronize over these connections. -/
def NetworkEvent.Quiet : NetworkEvent κ ι τ → Prop
  | .turn _ _ => False
  | _ => True

/-- A synchronization over a connection of a sound network. -/
theorem Network.Sound.synchronize (h : net.Sound c views) {a b : κ} {link : PeerLink}
    (hlink : link.Sound c) (workspace : StorageWorkspace) (candidateCapacity : ℕ) :
    ∃ v', SyncEffect (views a) v' link.blocks ((net.nodes a).service.synchronize
      (link.input (net.nodes b).service.chain workspace candidateCapacity)) := by
  have hchain : (net.nodes b).service.chain = (net.nodes a).service.chain :=
    (h.chain b).trans (h.chain a).symm
  rw [hchain]
  have htransport : (link.input (net.nodes a).service.chain workspace
      candidateCapacity).transport =
      servedTransport (net.nodes a).service.chain link.blocks peerMaxFrame := rfl
  by_cases hnil : link.blocks = []
  · rw [hnil] at htransport ⊢
    exact (h.coherent a).synchronize_nil htransport hlink.waits
  · obtain ⟨s, hserved⟩ := hlink.served hnil
    rw [← h.chain a] at hserved
    exact (h.coherent a).synchronize_served htransport hserved hlink.waits

variable [DecidableEq κ] [DecidableEq ι]

theorem Network.Sound.step (h : net.Sound c views) (event : NetworkEvent κ ι τ) :
    ∃ views', NetworkEffect c event.Quiet net views (net.step event).2 (net.step event).1
      views' := by
  cases event with
  | turn a event =>
      have hrefines := Runtime.turn_refines (h.coherent a) event
      obtain ⟨v', hv', hadvance⟩ := (h.coherent a).refines hrefines
      obtain ⟨hsound, hadvances⟩ := h.setNode (hrefines.chain.trans (h.chain a)) hv' hadvance
      exact ⟨_, hsound, hadvances,
        .of_le (h.party_le hsound hadvances) (fun _ _ => le_rfl) (.inl rfl), False.elim⟩
  | dial a b known =>
      obtain ⟨hcoherent, hchain, hblocks⟩ := Runtime.snapshot_spec (h.coherent b)
      obtain ⟨hsound, hadvances⟩ := h.setNode (hchain.trans (h.chain b)) hcoherent (.inl rfl)
      have hsame : ∀ a, Function.update views b (views b) a = views a := by simp
      simp only [Network.step]
      split
      · exact ⟨_, .of_link h hsound hadvances rfl (by simp) (.inl rfl)
          fun _ H _ hbefore => ⟨fun a => hsame a ▸ hbefore.nodes a, by simp⟩⟩
      next blocks hok =>
      have hwaits : Waits false (inboundSession known, ([] : Bytes)) := ⟨rfl, rfl⟩
      have hserved : blocks ≠ [] → blocks = (views b).blocks :=
        fun hne => (hblocks blocks hok).resolve_left hne
      have hlink : ∀ served, some (⟨blocks, (inboundSession known, []), false⟩ : PeerLink) =
          some served → served.Sound c := by
        intro served hsome
        obtain rfl := Option.some.inj hsome
        refine ⟨hwaits, fun hne => ?_⟩
        rw [hserved hne, ← h.chain b]
        exact ⟨_, (h.coherent b).serves⟩
      refine ⟨_, .of_link h hsound hadvances rfl hlink ?_ fun _ H _ hbefore => ⟨fun a => ?_, ?_⟩⟩
      · by_cases hnil : blocks = []
        · exact .inl (if_pos hnil)
        · refine .inr (.inl ⟨_, rfl, if_neg hnil, ?_⟩)
          exact (congrArg historyWork (hserved hnil)).ge
      · exact hsame a ▸ hbefore.nodes a
      · intro served hsome
        obtain rfl := Option.some.inj hsome
        by_cases hnil : blocks = []
        · exact .inl hnil
        · exact .inr ((hserved hnil) ▸ hbefore.nodes b)
  | synchronize a b workspace candidateCapacity =>
      simp only [Network.step]
      split
      · exact ⟨views, h, fun _ => .inl rfl,
          .of_le (fun _ => le_rfl) (fun _ _ => le_rfl) (.inr ⟨a, b, rfl⟩),
          fun _ _ _ hbefore => hbefore⟩
      next link hlinked =>
      have hlink := h.links a b link hlinked
      have hlevel : (net.levels views).channel a b = historyWork link.blocks := by
        simp only [Network.levels, hlinked, Option.elim_some]
      have hrefines := (h.coherent a).synchronize
        (link.input (net.nodes b).service.chain workspace candidateCapacity)
      obtain ⟨v', heffect⟩ := h.synchronize hlink workspace candidateCapacity (a := a) (b := b)
      have hset := h.setNode
        (r := ((net.nodes a).turn (.synchronize
          (link.input (net.nodes b).service.chain workspace candidateCapacity))).1)
        (hrefines.chain.trans (h.chain a)) heffect.coherent heffect.advances
      obtain ⟨hsound, hadvances⟩ := hset
      have hnodes (H : List Bytes → Prop) (hidentifies : Identifies H)
          (hbefore : net.Among H views) (k : κ) : H (Function.update views a v' k).blocks := by
        by_cases hk : k = a
        · rw [hk, Function.update_self]
          rcases heffect.taken with rfl | htaken
          · exact hbefore.nodes a
          · rcases hbefore.links a b link hlinked with hnil | hblocks
            · have hnone := htaken.headers
              rw [hnil, List.map_nil, List.map_eq_nil_iff] at hnone
              exact absurd hnone (accepts_iff.mp heffect.coherent.decoded.2).1
            · rw [htaken.eq hidentifies (hbefore.nodes a) hblocks]
              exact hblocks
        · rw [Function.update_of_ne hk]
          exact hbefore.nodes k
      split
      · exact ⟨_, .of_link h hsound hadvances rfl (by simp) (.inl rfl)
          fun _ H hidentifies hbefore => ⟨hnodes H hidentifies hbefore, by simp⟩⟩
      next connection hconnection =>
      obtain ⟨hidle, hle⟩ := heffect.kept connection hconnection
      have hlater : ∀ served, some (⟨link.blocks, connection, true⟩ : PeerLink) = some served →
          served.Sound c := by
        intro served hsome
        obtain rfl := Option.some.inj hsome
        exact ⟨hidle, hlink.served⟩
      refine ⟨_, .of_link h hsound hadvances rfl hlater
        (.inr (.inr ⟨_, rfl, rfl, hlevel.le, ?_⟩)) fun _ H hidentifies hbefore =>
          ⟨hnodes H hidentifies hbefore, fun served hsome => ?_⟩⟩
      · rw [hlevel, Function.update_self]
        exact hle
      · obtain rfl := Option.some.inj hsome
        exact hbefore.links a b link hlinked
  | closed a b =>
      exact ⟨views, .of_link h h (fun _ => .inl rfl) rfl (by simp) (.inl rfl)
        fun _ H _ hbefore => ⟨hbefore.nodes, by simp⟩⟩

/-! ## Runs -/

/-- A run of a sound network. -/
theorem Network.Sound.run (h : net.Sound c views) (events : List (NetworkEvent κ ι τ)) :
    ∃ views', (net.run events).1.Sound c views' ∧ (∀ a, (views a).Advances (views' a)) ∧
      Gossip.Run (net.levels views) (net.run events).2 ((net.run events).1.levels views') ∧
      ((∀ event ∈ events, event.Quiet) → ∀ H, Identifies H → net.Among H views →
        (net.run events).1.Among H views') := by
  induction events generalizing net views with
  | nil => exact ⟨views, h, fun _ => .inl rfl, .nil _, fun _ _ _ hbefore => hbefore⟩
  | cons event rest ih =>
      obtain ⟨views₁, hfirst⟩ := h.step event
      obtain ⟨views₂, hsound, hadvances, hrun, hamong⟩ := ih hfirst.sound
      refine ⟨views₂, hsound, fun a => (hfirst.advances a).trans (hadvances a),
        .cons hfirst.raises hrun, fun hquiet H hidentifies hbefore => ?_⟩
      apply hamong (fun later hlater => hquiet later (List.mem_cons_of_mem event hlater)) H
        hidentifies
      exact hfirst.among (hquiet event List.mem_cons_self) H hidentifies hbefore

/-- Whatever the nodes of a network, their clients, their miners and other peers do, in any
order: the nodes keep accepted histories, replaced only by ones with more work, and whoever has
heard of a node, from it or from others that have heard of it, has no less work than it had. -/
theorem network_spreads (h : net.Sound c views) (events : List (NetworkEvent κ ι τ)) :
    ∃ views', (net.run events).1.Sound c views' ∧ (∀ a, (views a).Advances (views' a)) ∧
      ∀ j, ∀ k ∈ Gossip.heard j (net.run events).2,
        historyWork (views j).blocks ≤ historyWork (views' k).blocks := by
  obtain ⟨views', hsound, hadvances, hrun, -⟩ := h.run events
  exact ⟨views', hsound, hadvances, hrun.reached⟩

/-- If nodes only dial and synchronize with each other, and one of them has the history with the
most work, then whoever has heard of it stores that history, as long as headers identify the
blocks of the histories in the network. -/
theorem network_agrees (h : net.Sound c views) (hfresh : ∀ a b, net.links a b = none)
    (hidentifies : Identifies fun blocks => ∃ a, blocks = (views a).blocks) (j : κ)
    (hmost : ∀ a, (views a).blocks = (views j).blocks ∨
      historyWork (views a).blocks < historyWork (views j).blocks)
    (events : List (NetworkEvent κ ι τ)) (hquiet : ∀ event ∈ events, event.Quiet) :
    ∃ views', (net.run events).1.Sound c views' ∧
      (∀ a, ∃ b, (views' a).blocks = (views b).blocks) ∧
      ∀ k ∈ Gossip.heard j (net.run events).2, views' k = views j := by
  obtain ⟨views', hsound, -, hrun, hamong⟩ := h.run events
  have hstart : net.Among (fun blocks => ∃ a, blocks = (views a).blocks) views :=
    ⟨fun a => ⟨a, rfl⟩, fun a b link hlinked => by simp [hfresh a b] at hlinked⟩
  have hend := hamong hquiet _ hidentifies hstart
  refine ⟨views', hsound, hend.nodes, fun k hk => ?_⟩
  have hwork : historyWork (views j).blocks ≤ historyWork (views' k).blocks := hrun.reached j k hk
  obtain ⟨a, ha⟩ := hend.nodes k
  have hblocks : (views' k).blocks = (views j).blocks := by
    rcases hmost a with hsame | hless
    · exact ha.trans hsame
    · rw [ha] at hwork
      exact absurd hwork (Nat.not_le.mpr hless)
  obtain ⟨-, haccepts⟩ := (hsound.coherent k).decoded
  obtain ⟨-, haccepts'⟩ := (h.coherent j).decoded
  rw [hsound.chain k, hblocks] at haccepts
  rw [h.chain j] at haccepts'
  have hstate : (views' k).state = (views j).state :=
    (accepts_iff.mp haccepts).2.unique (accepts_iff.mp haccepts').2
  have hview : views' k = ⟨(views' k).blocks, (views' k).state⟩ := rfl
  rw [hview, hblocks, hstate]

end

section Sample

attribute [local instance] Sample.storing

namespace Sample

theorem miningFrom_selected (active : ChainState) : (miningFrom active).sha256Selected = true →
    (miningFrom active).chain.hashProvider.hash = some Primitives.sha256 :=
  mining_selected

/-- A node that stores some blocks and has their state active. -/
def nodeOf (v : StorageView) : Runtime Bool (Option Bytes) :=
  { runningFrom v.state with
    service := { miningFrom v.state with
      sha256_of_selected := miningFrom_selected v.state
      device := some (imageOf v.blocks) } }

theorem nodeOf_coherent {blocks : List Bytes} {s : ChainState}
    (h : Accepts storingContext blocks s) (hcount : blocks.length < 2 ^ 32)
    (hsize : (storageSigned blocks).length + 32 ≤ 4096) :
    (nodeOf ⟨blocks, s⟩).service.Coherent ⟨blocks, s⟩ := by
  have hdecode : storageDecode storingContext (imageOf blocks) = .ok ⟨blocks, s⟩ :=
    storageDecode_of_encode (by decide) h (storageEncode_imageOf h hcount hsize)
  exact ⟨⟨imageOf blocks, rfl, hdecode⟩, rfl⟩

/-- One node stores the genesis block and the other one a block more. -/
def histories (s t : ChainState) : Bool → StorageView
  | false => ⟨[genesis], s⟩
  | true => ⟨[genesis, empty], t⟩

/-- Two nodes that have not dialled. -/
def pair (s t : ChainState) : Network Bool Bool (Option Bytes) where
  nodes a := nodeOf (histories s t a)
  links _ _ := none

theorem pair_sound : ∃ s t, (pair s t).Sound storingContext (histories s t) ∧
    historyWork [genesis] < historyWork [genesis, empty] := by
  obtain ⟨s, hs, hlow⟩ := accepts_genesis
  obtain ⟨t, ht, hwork⟩ := accepts_of_any storingContext [genesis, empty] _ works_empty
  refine ⟨s, t, ⟨fun a => ?_, fun a => ?_, by simp [pair]⟩, ?_⟩
  · cases a with
    | false => rfl
    | true => rfl
  · cases a with
    | false => exact nodeOf_coherent hs (by decide) (by decide +kernel)
    | true => exact nodeOf_coherent ht (by decide) (by decide +kernel)
  · rw [← hs.work_eq (by decide), ← ht.work_eq (by decide), hlow]
    exact BitVec.lt_def.mp (of_decide_eq_true hwork)

/-- No two blocks of the two histories have one header. -/
theorem histories_identified (s t : ChainState) :
    Identifies fun blocks => ∃ a, blocks = (histories s t a).blocks := by
  have hblocks : ∀ a, ∀ x ∈ (histories s t a).blocks, x = genesis ∨ x = empty := by
    intro a x hx
    cases a with
    | false => exact .inl (List.mem_singleton.mp hx)
    | true => simpa [histories] using hx
  have hdiffer : headerOf genesis ≠ headerOf empty := by
    decide +kernel
  intro left right hleft hright x hx y hy hheader
  obtain ⟨a, rfl⟩ := hleft
  obtain ⟨b, rfl⟩ := hright
  rcases hblocks a x hx with rfl | rfl
  · rcases hblocks b y hy with rfl | rfl
    · rfl
    · exact absurd hheader hdiffer
  · rcases hblocks b y hy with rfl | rfl
    · exact absurd hheader.symm hdiffer
    · rfl

/-- The node with less work dials the other one and synchronizes. -/
def catchUp : List (NetworkEvent Bool Bool Bytes) :=
  [.dial false true none, .synchronize false true ⟨4096, 4096⟩ 498]

end Sample

open Sample

theorem sample_network_spreads : ∃ s t views', (pair s t).Sound storingContext (histories s t) ∧
    ((pair s t).run catchUp).1.Sound storingContext views' ∧
    ∀ k ∈ Gossip.heard true ((pair s t).run catchUp).2,
      historyWork [genesis, empty] ≤ historyWork (views' k).blocks := by
  obtain ⟨s, t, hsound, -⟩ := pair_sound
  obtain ⟨views', hsound', -, hspreads⟩ := network_spreads hsound catchUp
  exact ⟨s, t, views', hsound, hsound', hspreads true⟩

theorem sample_network_agrees : ∃ s t views', (pair s t).Sound storingContext (histories s t) ∧
    ((pair s t).run catchUp).1.Sound storingContext views' ∧
    ∀ k ∈ Gossip.heard true ((pair s t).run catchUp).2, views' k = ⟨[genesis, empty], t⟩ := by
  obtain ⟨s, t, hsound, hwork⟩ := pair_sound
  have hmost : ∀ a, (histories s t a).blocks = (histories s t true).blocks ∨
      historyWork (histories s t a).blocks < historyWork (histories s t true).blocks := by
    intro a
    cases a with
    | false => exact .inr hwork
    | true => exact .inl rfl
  have hquiet : ∀ event ∈ catchUp, event.Quiet := by
    simp [catchUp, NetworkEvent.Quiet]
  obtain ⟨views', hsound', -, hagrees⟩ := network_agrees hsound (fun _ _ => rfl)
    (histories_identified s t) true hmost catchUp hquiet
  exact ⟨s, t, views', hsound, hsound', hagrees⟩

end Sample

end StnChain
