import Sentinel.Ingestion.Frames

/-!
# Quotes that are there

* `FrameBacked`: the ticks of a frame are those of its items one after the other, each made of
  values that its item has.
* `frameBacked_iff`: it is just if an item raises or all items are `Sound`.
-/

namespace Sentinel.Ingestion

open Logic

/-! ## The ticks of a frame, by items -/

section Parts

variable {py : TextBuiltins} {cfg : WebsocketConfig}

theorem parseItems_eq_some : ∀ {items : List Value} {out : Output},
    parseItems py cfg items = some out ↔
      ∃ parts : List Output, List.Forall₂ (fun item part => parseItem py cfg item = some part) items
        parts ∧ out = (parts.flatMap (·.1), parts.flatMap (·.2))
  | [], out => by
    constructor
    · intro h
      exact ⟨[], .nil, (Option.some.inj h).symm⟩
    · rintro ⟨parts, hparts, rfl⟩
      cases hparts
      rfl
  | item :: items, out => by
    rw [parseItems_cons]
    constructor
    · rintro ⟨first, rest, hfirst, hrest, rfl⟩
      obtain ⟨parts, hparts, rfl⟩ := parseItems_eq_some.1 hrest
      exact ⟨first :: parts, .cons hfirst hparts, rfl⟩
    · rintro ⟨parts, hparts, rfl⟩
      cases hparts with
      | cons hfirst hparts =>
        exact ⟨_, _, hfirst, parseItems_eq_some.2 ⟨_, hparts, rfl⟩, rfl⟩

theorem parseChanges_eq_some {timestampMs : ℤ} : ∀ {changes : List Value}
    {ticks : List ParsedTick},
    parseChanges py cfg timestampMs changes = some ticks ↔
      ∃ parts, List.Forall₂ (fun change part => parseChange py cfg timestampMs change = some part)
        changes parts ∧ ticks = parts.flatten
  | [], ticks => by
    constructor
    · intro h
      exact ⟨[], .nil, (Option.some.inj h).symm⟩
    · rintro ⟨parts, hparts, rfl⟩
      cases hparts
      rfl
  | change :: changes, ticks => by
    rw [parseChanges_cons]
    constructor
    · rintro ⟨first, rest, hfirst, hrest, rfl⟩
      obtain ⟨parts, hparts, rfl⟩ := parseChanges_eq_some.1 hrest
      exact ⟨first :: parts, .cons hfirst hparts, rfl⟩
    · rintro ⟨parts, hparts, rfl⟩
      cases hparts with
      | cons hfirst hparts =>
        exact ⟨_, _, hfirst, parseChanges_eq_some.2 ⟨_, hparts, rfl⟩, rfl⟩

end Parts

/-! ## Ticks that are backed -/

section Backed

variable (py : TextBuiltins) (cfg : WebsocketConfig)

def present : Value → Bool
  | .null => false
  | _ => true

/-- The tick is of the asset and of the quote that the three values give. -/
structure MidpointOf (assetId bid ask : Value) (tick : ParsedTick) : Prop where
  named : present assetId = true
  assetId : tick.assetId = pyStr py assetId
  quote : ∃ b a p : ℚ, numeric py bid = some b ∧ numeric py ask = some a ∧
    tick.bestBid = some (.finite b) ∧ tick.bestAsk = some (.finite a) ∧ tick.price = .finite p ∧
    tick.spread = some (.finite (a - b)) ∧ 0 ≤ b ∧ b ≤ p ∧ p ≤ a ∧ a ≤ 1 ∧ 0 ≤ a - b ∧
    a - b ≤ cfg.maxSpreadForMidpoint

structure TradeOf (assetId price : Value) (tick : ParsedTick) : Prop where
  named : present assetId = true
  assetId : tick.assetId = pyStr py assetId
  price : ∃ p, numeric py price = some p ∧ tick.price = .finite p

/-- The ticks are those of the change, and each is of its values. -/
def ChangeBacked (timestampMs : ℤ) (change : Value) (ticks : List ParsedTick) : Prop :=
  parseChange py cfg timestampMs change = some ticks ∧
    ∀ tick ∈ ticks, ∃ fields, change = .dict fields ∧
      MidpointOf py cfg (getKey fields "asset_id") (getKey fields "best_bid")
        (getKey fields "best_ask") tick

/-- The ticks are those of the item, and each is of its values. -/
def ItemBacked (value : Value) (ticks : List ParsedTick) : Prop :=
  (∃ events, parseItem py cfg value = some (ticks, events)) ∧
    match value with
    | .dict item =>
      match eventType py item with
      | .book =>
        ∀ tick ∈ ticks, ∃ bid ask, bookSides item = some (some bid, some ask) ∧
          MidpointOf py cfg (getKey item "asset_id") bid ask tick
      | .priceChange =>
        ∃ timestampMs changes parts, parseTsMs py (getKey item "timestamp") = some timestampMs ∧
          iterateKey item "price_changes" = some changes ∧ ticks = parts.flatten ∧
          List.Forall₂ (ChangeBacked py cfg timestampMs) changes parts
      | .lastTrade =>
        ∀ tick ∈ ticks, TradeOf py (getKey item "asset_id") (getKey item "price") tick
      | .resolved | .unknown => ticks = []
    | _ => ticks = []

/-- The ticks of a frame are those of its items, one after the other, and each is of the values of
its item. -/
def FrameBacked (payload : Value) : Prop :=
  ∀ out, parseMessage py cfg payload = some out →
    ∃ parts, out.1 = parts.flatten ∧ List.Forall₂ (ItemBacked py cfg) (frameItems payload) parts

/-! ## Sound items -/

def SoundQuote (assetId bid ask : Value) : Prop :=
  present assetId = true ∧
    ∃ b a, numeric py bid = some b ∧ numeric py ask = some a ∧ 0 ≤ b ∧ b ≤ a ∧ a ≤ 1

def SoundBook (item : List (String × Value)) : Prop :=
  SilentBook py cfg item ∨ ∃ bid ask, bookSides item = some (some bid, some ask) ∧
    SoundQuote py (getKey item "asset_id") bid ask

def SoundChange (change : Value) : Prop :=
  SilentChange py cfg change ∨ ∃ fields, change = .dict fields ∧
    SoundQuote py (getKey fields "asset_id") (getKey fields "best_bid") (getKey fields "best_ask")

def SoundTrade (item : List (String × Value)) : Prop :=
  present (getKey item "asset_id") = true ∧ (numeric py (getKey item "price")).isSome = true

/-- What the item has is a quote or a price, unless it is read as a quote that is left out. -/
def Sound : Value → Prop
  | .dict item =>
    match eventType py item with
    | .book => SoundBook py cfg item
    | .priceChange =>
      ∀ changes, iterateKey item "price_changes" = some changes →
        ∀ change ∈ changes, SoundChange py cfg change
    | .lastTrade => SoundTrade py item
    | .resolved | .unknown => True
  | _ => True

end Backed

section Soundness

variable {py : TextBuiltins} {cfg : WebsocketConfig}

/-- The tick that two values are read to is of them just if they are a quote. -/
theorem midpointTicks_backed (assetId : Value) {bid ask : Value} {default : ℚ} {b a : PyFloat}
    (hbid : parseFloat py bid default = some b) (hask : parseFloat py ask default = some a)
    (hmade : ¬ (minus a b).gtRat cfg.maxSpreadForMidpoint = true) (source : String)
    (timestampMs : ℤ) :
    (∀ tick ∈ midpointTicks cfg source (pyStr py assetId) timestampMs b a,
      MidpointOf py cfg assetId bid ask tick) ↔ SoundQuote py assetId bid ask := by
  unfold midpointTicks
  rw [if_neg hmade, List.forall_mem_singleton]
  constructor
  · rintro ⟨hnamed, -, b', a', p, hb, ha, -, -, -, -, hpos, hle, hle', hone, -⟩
    exact ⟨hnamed, b', a', hb, ha, hpos, hle.trans hle', hone⟩
  · rintro ⟨hnamed, b', a', hb, ha, hpos, hle, hone⟩
    obtain rfl := Option.some.inj (hbid.symm.trans (parseFloat_numeric hb default))
    obtain rfl := Option.some.inj (hask.symm.trans (parseFloat_numeric ha default))
    rw [gtRat_sub_finite] at hmade
    refine ⟨hnamed, rfl, b', a', (b' + a') / 2, hb, ha, rfl, rfl, rfl, ?_, hpos, ?_, ?_, hone, ?_,
      not_lt.1 hmade⟩
    · exact congrArg (some ∘ PyFloat.finite) (sub_eq_add_neg a' b').symm
    · linarith
    · linarith
    · exact sub_nonneg.2 hle

theorem bookBacked_iff {item : List (String × Value)} {timestampMs : ℤ} {ticks : List ParsedTick}
    (hticks : parseBook py cfg item timestampMs = some ticks) :
    (∀ tick ∈ ticks, ∃ bid ask, bookSides item = some (some bid, some ask) ∧
      MidpointOf py cfg (getKey item "asset_id") bid ask tick) ↔ SoundBook py cfg item := by
  by_cases hsilent : SilentBook py cfg item
  · rw [(parseBook_silent timestampMs).2 hsilent] at hticks
    obtain rfl := Option.some.inj hticks
    exact ⟨fun _ => .inl hsilent, fun _ tick hmem => (nomatch hmem)⟩
  · refine Iff.trans ?_ (or_iff_right hsilent).symm
    cases hsides : bookSides item with
    | none => exact absurd (fun bid ask h => nomatch hsides.symm.trans h) hsilent
    | some sides =>
      obtain ⟨side, side'⟩ := sides
      obtain ⟨b, a, hb, ha, rfl⟩ := (parseBook_eq_some hsides).1 hticks
      obtain ⟨bid, rfl, hb⟩ := Option.bind_eq_some_iff.1 hb
      obtain ⟨ask, rfl, ha⟩ := Option.bind_eq_some_iff.1 ha
      have hmade : ¬ (minus a b).gtRat cfg.maxSpreadForMidpoint = true := by
        intro hwide
        refine hsilent fun bid' ask' h => ?_
        obtain ⟨rfl, rfl⟩ := Prod.mk.inj (Option.some.inj (hsides.symm.trans h))
        exact ⟨b, a, hb, ha, hwide⟩
      have hmade' := midpointTicks_backed (getKey item "asset_id") hb ha hmade
        "midpoint_book" timestampMs
      constructor
      · intro hall
        refine ⟨bid, ask, rfl, hmade'.1 fun tick hmem => ?_⟩
        obtain ⟨bid', ask', h, hof⟩ := hall tick hmem
        obtain ⟨h₁, h₂⟩ := Prod.mk.inj (Option.some.inj h)
        rw [Option.some.inj h₁, Option.some.inj h₂]
        exact hof
      · rintro ⟨bid', ask', h, hsound⟩ tick hmem
        obtain ⟨h₁, h₂⟩ := Prod.mk.inj (Option.some.inj h)
        rw [← Option.some.inj h₁, ← Option.some.inj h₂] at hsound
        exact ⟨bid, ask, rfl, hmade'.2 hsound tick hmem⟩

theorem changeBacked_iff {change : Value} {timestampMs : ℤ} {ticks : List ParsedTick}
    (hticks : parseChange py cfg timestampMs change = some ticks) :
    ChangeBacked py cfg timestampMs change ticks ↔ SoundChange py cfg change := by
  refine (and_iff_right hticks).trans ?_
  by_cases hsilent : SilentChange py cfg change
  · rw [(parseChange_silent timestampMs).2 hsilent] at hticks
    obtain rfl := Option.some.inj hticks
    exact ⟨fun _ => .inl hsilent, fun _ tick hmem => (nomatch hmem)⟩
  · refine Iff.trans ?_ (or_iff_right hsilent).symm
    cases change with
    | dict fields =>
      obtain ⟨b, a, hb, ha, rfl⟩ := parseChange_eq_some.1 hticks
      have hneg : ¬ (b.ltRat 0 || a.ltRat 0) = true :=
        fun h => hsilent ⟨b, a, hb, ha, .inl h⟩
      have hmade : ¬ (minus a b).gtRat cfg.maxSpreadForMidpoint = true :=
        fun h => hsilent ⟨b, a, hb, ha, .inr h⟩
      have hmade' := midpointTicks_backed (getKey fields "asset_id") hb ha hmade
        "midpoint_change" timestampMs
      rw [if_neg hneg]
      constructor
      · intro hall
        refine ⟨fields, rfl, hmade'.1 fun tick hmem => ?_⟩
        obtain ⟨fields', h, hof⟩ := hall tick hmem
        rw [Value.dict.inj h]
        exact hof
      · rintro ⟨fields', h, hsound⟩ tick hmem
        rw [← Value.dict.inj h] at hsound
        exact ⟨fields, rfl, hmade'.2 hsound tick hmem⟩
    | null | bool | int | float | str | list => exact nomatch hticks

theorem tradeBacked_iff {item : List (String × Value)} {timestampMs : ℤ} {ticks : List ParsedTick}
    (hticks : parseTrade py item timestampMs = some ticks) :
    (∀ tick ∈ ticks, TradeOf py (getKey item "asset_id") (getKey item "price") tick) ↔
      SoundTrade py item := by
  obtain ⟨price, hprice, rfl⟩ := parseTrade_eq_some.1 hticks
  rw [List.forall_mem_singleton]
  constructor
  · rintro ⟨hnamed, -, p, hp, -⟩
    exact ⟨hnamed, Option.isSome_iff_exists.2 ⟨p, hp⟩⟩
  · rintro ⟨hnamed, hnum⟩
    obtain ⟨p, hp⟩ := Option.isSome_iff_exists.1 hnum
    obtain rfl := Option.some.inj (hprice.symm.trans (parseFloat_numeric hp 0))
    exact ⟨hnamed, rfl, p, hp, rfl⟩

/-- For lists that are related item by item, a relation of the pairs and a property of the items that
agree on every such pair agree on the lists. -/
theorem forall₂_iff_forall {α β : Type} {R S : α → β → Prop} {P : α → Prop} {xs : List α}
    {ys : List β} (hrel : List.Forall₂ R xs ys) (hiff : ∀ x y, R x y → (S x y ↔ P x)) :
    List.Forall₂ S xs ys ↔ ∀ x ∈ xs, P x := by
  induction hrel with
  | nil => exact ⟨fun _ _ hmem => (nomatch hmem), fun _ => .nil⟩
  | cons hxy _ hold => rw [List.forall₂_cons, List.forall_mem_cons, hiff _ _ hxy, hold]

theorem changesBacked_iff {changes : List Value} {timestampMs : ℤ} {parts : List (List ParsedTick)}
    (hparts : List.Forall₂ (fun change part => parseChange py cfg timestampMs change = some part)
      changes parts) :
    List.Forall₂ (ChangeBacked py cfg timestampMs) changes parts ↔
      ∀ change ∈ changes, SoundChange py cfg change :=
  forall₂_iff_forall hparts fun _ _ => changeBacked_iff

theorem itemBacked_iff {value : Value} {ticks : List ParsedTick}
    (hread : ∃ events, parseItem py cfg value = some (ticks, events)) :
    ItemBacked py cfg value ticks ↔ Sound py cfg value := by
  refine (and_iff_right hread).trans ?_
  obtain ⟨events, hread⟩ := hread
  cases value with
  | dict item =>
    cases htime : parseTsMs py (getKey item "timestamp") with
    | none => exact nomatch (parseItem_untimed htime).symm.trans hread
    | some timestampMs =>
      rw [parseItem_ticks htime] at hread
      unfold Sound
      dsimp only
      cases hevent : eventType py item with
      | book =>
        rw [hevent] at hread
        obtain ⟨_, hticks, heq⟩ := hread
        obtain ⟨rfl, -⟩ := Prod.mk.inj heq
        exact bookBacked_iff hticks
      | priceChange =>
        rw [hevent] at hread
        obtain ⟨changes, _, hchanges, hticks, heq⟩ := hread
        obtain ⟨rfl, -⟩ := Prod.mk.inj heq
        obtain ⟨parts, hparts, rfl⟩ := parseChanges_eq_some.1 hticks
        constructor
        · rintro ⟨timestampMs', changes', parts', htime', hchanges', -, hbacked⟩ others hothers
          obtain rfl := Option.some.inj (htime.symm.trans htime')
          obtain rfl := Option.some.inj (hchanges'.symm.trans hothers)
          exact (changesBacked_iff (hbacked.imp fun _ _ h => h.1)).1 hbacked
        · intro hsound
          exact ⟨timestampMs, changes, parts, htime, hchanges, rfl,
            (changesBacked_iff hparts).2 (hsound changes hchanges)⟩
      | lastTrade =>
        rw [hevent] at hread
        obtain ⟨_, hticks, heq⟩ := hread
        obtain ⟨rfl, -⟩ := Prod.mk.inj heq
        exact tradeBacked_iff hticks
      | resolved =>
        rw [hevent] at hread
        obtain ⟨_, -, heq⟩ := hread
        exact iff_of_true (Prod.mk.inj heq).1 trivial
      | unknown =>
        rw [hevent] at hread
        exact iff_of_true (Prod.mk.inj hread).1 trivial
  | null | bool | int | float | str | list =>
    exact iff_of_true (Prod.mk.inj (Option.some.inj hread)).1.symm trivial

/-- The lists of ticks that a list of items is made into are backed just if the items are sound. -/
theorem itemsBacked_iff {items : List Value} {parts : List (List ParsedTick)}
    (hparts : List.Forall₂ (fun item ticks => ∃ events,
      parseItem py cfg item = some (ticks, events)) items parts) :
    List.Forall₂ (ItemBacked py cfg) items parts ↔ ∀ item ∈ items, Sound py cfg item :=
  forall₂_iff_forall hparts fun _ _ => itemBacked_iff

end Soundness

/-- Of a frame that is not dropped, every tick is of values that its item has just if every item is
sound: a trade has an asset and a number for its price; a book or a change has an asset and numbers
for its sides, in order and between zero and one, unless what is read of it, with zero and minus one
for what is missing, is left out. -/
theorem frameBacked_iff (py : TextBuiltins) (cfg : WebsocketConfig) (payload : Value) :
    FrameBacked py cfg payload ↔
      (∃ item ∈ frameItems payload, ¬ Readable py item) ∨
        ∀ item ∈ frameItems payload, Sound py cfg item := by
  by_cases hread : ∀ item ∈ frameItems payload, Readable py item
  · obtain ⟨out, hout⟩ :=
      Option.isSome_iff_exists.1 ((parseMessage_isSome cfg).2 hread)
    obtain ⟨parts, hparts, rfl⟩ := parseItems_eq_some.1 hout
    have hticks : List.Forall₂ (fun item ticks => ∃ events,
        parseItem py cfg item = some (ticks, events)) (frameItems payload) (parts.map (·.1)) :=
      List.forall₂_map_right_iff.2 (hparts.imp fun _ part h => ⟨part.2, h⟩)
    refine Iff.trans ?_ (or_iff_right ?_).symm
    · constructor
      · intro hbacked
        obtain ⟨ticks, -, hall⟩ := hbacked _ hout
        exact (itemsBacked_iff (hall.imp fun _ _ h => h.1)).1 hall
      · intro hsound other hother
        obtain rfl := Option.some.inj (hout.symm.trans hother)
        exact ⟨parts.map (·.1), List.flatMap_def, (itemsBacked_iff hticks).2 hsound⟩
    · rintro ⟨item, hmem, hraise⟩
      exact hraise (hread item hmem)
  · refine iff_of_true (fun out hout => ?_) (.inl ?_)
    · exact absurd ((parseMessage_isSome cfg).1 (Option.isSome_iff_exists.2 ⟨out, hout⟩)) hread
    · push Not at hread
      exact hread

namespace Sample

/-- An update without a bid. -/
def noBid : Value :=
  .dict [("event_type", .str "best_bid_ask"), ("asset_id", .str "asset-1"), ("best_bid", .null),
    ("best_ask", .float (.finite (1 / 20))), ("timestamp", .int 1757908892351)]

/-- The tick that is made of it. -/
def madeUp : ParsedTick where
  assetId := "asset-1"
  price := .finite (1 / 40)
  bestBid := some (.finite 0)
  bestAsk := some (.finite (1 / 20))
  spread := some (.finite (1 / 20))
  signalSource := "midpoint_book"
  quoteTsMs := some 1757908892351
  timestampMs := 1757908892351

end Sample

/-- A missing bid is read as zero, and the asset is priced at half the ask. -/
theorem noBid_made_up :
    (parseMessage Sample.textBuiltins Sample.websocketConfig Sample.noBid).map (·.1) =
        some [Sample.madeUp] ∧
      ¬ FrameBacked Sample.textBuiltins Sample.websocketConfig Sample.noBid := by
  have hread : (parseMessage Sample.textBuiltins Sample.websocketConfig Sample.noBid).map (·.1) =
      some [Sample.madeUp] := by decide +kernel
  refine ⟨hread, fun hbacked => ?_⟩
  obtain ⟨out, hout, hticks⟩ := Option.map_eq_some_iff.1 hread
  obtain ⟨parts, hparts, hall⟩ := hbacked out hout
  cases hall with
  | cons hitem hrest =>
    cases hrest
    rw [hticks, List.flatten_cons, List.flatten_nil, List.append_nil] at hparts
    subst hparts
    obtain ⟨bid, ask, hsides, hof⟩ := hitem.2 _ List.mem_cons_self
    obtain ⟨b, a, p, hbid, -⟩ := hof.quote
    have hnull : Value.null = bid := Option.some.inj (Prod.mk.inj (Option.some.inj hsides)).1
    rw [← hnull] at hbid
    exact nomatch hbid

end Sentinel.Ingestion
