import Sentinel.Ingestion.WsClient

/-!
# Bad items in a frame

* `wellFormed`: an item that has the fields its type needs, of the right types.
* `Readable`: an item that does not raise; `Harmless`: one that is not made into anything either.
* `FrameKept`: the frame is read, and to the same as its well-formed items alone.
* `frameKept_iff`: it is just if every other item of it is harmless.
-/

namespace Sentinel.Ingestion

open Logic

section Frames

variable (py : TextBuiltins)

/-! ## Well-formed items -/

def isText : Value → Bool
  | .str _ => true
  | _ => false

/-- Has a number for either side of a quote. -/
def isQuoted (fields : List (String × Value)) : Bool :=
  (numeric py (getKey fields "best_bid")).isSome && (numeric py (getKey fields "best_ask")).isSome

def levelPrice : Value → Option ℚ
  | .dict level => numeric py (getKey level "price")
  | _ => none

def isLevel (level : Value) : Bool := (levelPrice py level).isSome

def isChange : Value → Bool
  | .dict change => isText (getKey change "asset_id") && isQuoted py change
  | _ => false

/-- A list of what `p` accepts. -/
def isListOf (p : Value → Bool) : Value → Bool
  | .list values => values.all p
  | _ => false

def wellFormedBook (item : List (String × Value)) : Bool :=
  isText (getKey item "asset_id") &&
    if hasQuoteKeys item then isQuoted py item
    else isListOf (isLevel py) (getKey item "bids") && isListOf (isLevel py) (getKey item "asks")

def wellFormedTrade (item : List (String × Value)) : Bool :=
  isText (getKey item "asset_id") && (numeric py (getKey item "price")).isSome

def wellFormedResolved (item : List (String × Value)) : Bool :=
  isText ((getKey item "market").orElse (getKey item "id")) &&
    isText (getKey item "winning_asset_id") && isText (getKey item "winning_outcome") &&
    isListOf isText (getKey item "assets_ids")

def wellFormed : Value → Bool
  | .dict item =>
    isText (getKey item "event_type") && isTime py (getKey item "timestamp") &&
      match eventType py item with
      | .book => wellFormedBook py item
      | .priceChange => isListOf (isChange py) (getKey item "price_changes")
      | .lastTrade => wellFormedTrade py item
      | .resolved => wellFormedResolved item
      | .unknown => true
  | _ => false

/-! ## Readable items -/

/-- The values that the sides of a book are read from, if it has sides; one is none where the first
level is not a dict. -/
def bookSides (item : List (String × Value)) : Option (Option Value × Option Value) :=
  if hasQuoteKeys item then some (some (getKey item "best_bid"), some (getKey item "best_ask"))
  else if (getKey item "bids").truthy && (getKey item "asks").truthy then
    some (firstPrice (getKey item "bids"), firstPrice (getKey item "asks"))
  else none

def readSide (side : Option Value) : Option PyFloat := side.bind fun value => parseFloat py value 0

def ReadableBook (item : List (String × Value)) : Prop :=
  ∀ bid ask, bookSides item = some (bid, ask) →
    (readSide py bid).isSome = true ∧ (readSide py ask).isSome = true

def ReadableChange : Value → Prop
  | .dict change =>
    (parseFloat py (getKey change "best_bid") (-1)).isSome = true ∧
      (parseFloat py (getKey change "best_ask") (-1)).isSome = true
  | _ => False

/-- No reading of the item raises. -/
def Readable : Value → Prop
  | .dict item =>
    (parseTsMs py (getKey item "timestamp")).isSome = true ∧
      match eventType py item with
      | .book => ReadableBook py item
      | .priceChange =>
        ∃ changes, iterateKey item "price_changes" = some changes ∧
          ∀ change ∈ changes, ReadableChange py change
      | .lastTrade => (parseFloat py (getKey item "price") 0).isSome = true
      | .resolved => (iterateKey item "assets_ids").isSome = true
      | .unknown => True
  | _ => True

/-! ## Harmless items -/

variable (cfg : WebsocketConfig)

/-- Both sides are read, and are too far apart. -/
def tooWide (bid ask : Option PyFloat) : Prop :=
  ∃ b a, bid = some b ∧ ask = some a ∧ (minus a b).gtRat cfg.maxSpreadForMidpoint = true

def SilentBook (item : List (String × Value)) : Prop :=
  ∀ bid ask, bookSides item = some (bid, ask) → tooWide cfg (readSide py bid) (readSide py ask)

/-- Both sides are read, and one is negative or they are too far apart. -/
def SilentChange : Value → Prop
  | .dict change =>
    ∃ bid ask, parseFloat py (getKey change "best_bid") (-1) = some bid ∧
      parseFloat py (getKey change "best_ask") (-1) = some ask ∧
      ((bid.ltRat 0 || ask.ltRat 0) = true ∨ (minus ask bid).gtRat cfg.maxSpreadForMidpoint = true)
  | _ => False

/-- A trade and a resolution are made into something or raise. -/
def Harmless : Value → Prop
  | .dict item =>
    (parseTsMs py (getKey item "timestamp")).isSome = true ∧
      match eventType py item with
      | .book => SilentBook py cfg item
      | .priceChange =>
        ∃ changes, iterateKey item "price_changes" = some changes ∧
          ∀ change ∈ changes, SilentChange py cfg change
      | .lastTrade => False
      | .resolved => False
      | .unknown => True
  | _ => True

/-- The frame is not dropped, and gives in order what its well-formed items give. -/
def FrameKept (items : List Value) : Prop :=
  ∃ out, parseMessage py cfg (.list items) = some out ∧
    parseMessage py cfg (.list (items.filter (wellFormed py))) = some out

end Frames

/-! ## Leaving items out -/

section Skipped

variable {py : TextBuiltins} {cfg : WebsocketConfig} {good : Value → Bool}

/-- What is read of a frame that is not dropped is read of a part of it as well. -/
theorem parseItems_filter : ∀ {items : List Value} {out : Output},
    parseItems py cfg items = some out → ∃ kept,
      parseItems py cfg (items.filter good) = some kept ∧ kept.1.Sublist out.1 ∧
        kept.2.Sublist out.2
  | [], _, h => ⟨_, h, List.Sublist.refl _, List.Sublist.refl _⟩
  | item :: items, out, h => by
    obtain ⟨first, rest, hfirst, hrest, rfl⟩ := parseItems_cons.1 h
    obtain ⟨kept, hkept, hticks, hevents⟩ := parseItems_filter hrest
    by_cases hgood : good item = true
    · rw [List.filter_cons_of_pos hgood]
      exact ⟨_, parseItems_cons.2 ⟨first, kept, hfirst, hkept, rfl⟩, hticks.append_left _,
        hevents.append_left _⟩
    · rw [List.filter_cons_of_neg hgood]
      exact ⟨kept, hkept, hticks.trans (List.sublist_append_right _ _),
        hevents.trans (List.sublist_append_right _ _)⟩

theorem eq_nil_of_append_sublist {α : Type} {xs ys zs : List α} (h : xs ++ ys = zs)
    (hsub : zs.Sublist ys) : xs = [] ∧ ys = zs := by
  have hlen := hsub.length_le
  rw [← h, List.length_append] at hlen
  have hnil : xs = [] := List.length_eq_zero_iff.1 (by omega)
  subst hnil
  exact ⟨rfl, h⟩

theorem silent_of_kept : ∀ {items : List Value} {out : Output},
    parseItems py cfg items = some out → parseItems py cfg (items.filter good) = some out →
      ∀ item ∈ items, good item = false → parseItem py cfg item = some ([], [])
  | [], _, _, _ => fun _ hmem => (nomatch hmem)
  | item :: items, out, h, hsame => by
    obtain ⟨first, rest, hfirst, hrest, rfl⟩ := parseItems_cons.1 h
    by_cases hgood : good item = true
    · rw [List.filter_cons_of_pos hgood] at hsame
      obtain ⟨first', rest', hfirst', hrest', heq⟩ := parseItems_cons.1 hsame
      obtain rfl := Option.some.inj (hfirst.symm.trans hfirst')
      have hout : rest' = rest := Prod.ext (List.append_cancel_left (Prod.mk.inj heq).1).symm
        (List.append_cancel_left (Prod.mk.inj heq).2).symm
      subst hout
      intro other hmem hbad
      rcases List.mem_cons.1 hmem with rfl | hmem
      · rw [hgood] at hbad
        exact nomatch hbad
      · exact silent_of_kept hrest hrest' other hmem hbad
    · rw [List.filter_cons_of_neg hgood] at hsame
      obtain ⟨kept, hkept, hticks, hevents⟩ := parseItems_filter hrest
      obtain rfl := Option.some.inj (hsame.symm.trans hkept)
      obtain ⟨hnil, hrest₁⟩ := eq_nil_of_append_sublist rfl hticks
      obtain ⟨hnil', hrest₂⟩ := eq_nil_of_append_sublist rfl hevents
      have hout : rest = (first.1 ++ rest.1, first.2 ++ rest.2) := Prod.ext hrest₁ hrest₂
      intro other hmem hbad
      rcases List.mem_cons.1 hmem with rfl | hmem
      · rw [hfirst]
        exact congrArg some (Prod.ext hnil hnil')
      · exact silent_of_kept (hrest.trans (congrArg some hout)) hsame other hmem hbad

theorem kept_of_silent (hgood : ∀ item, good item = true → (parseItem py cfg item).isSome = true) :
    ∀ {items : List Value},
      (∀ item ∈ items, good item = false → parseItem py cfg item = some ([], [])) →
      ∃ out, parseItems py cfg items = some out ∧ parseItems py cfg (items.filter good) = some out
  | [], _ => ⟨_, rfl, rfl⟩
  | item :: items, hsilent => by
    obtain ⟨rest, hrest, hkept⟩ :=
      kept_of_silent hgood fun other hmem => hsilent other (List.mem_cons_of_mem _ hmem)
    by_cases hitem : good item = true
    · obtain ⟨first, hfirst⟩ := Option.isSome_iff_exists.1 (hgood item hitem)
      rw [List.filter_cons_of_pos hitem]
      exact ⟨_, parseItems_cons.2 ⟨first, rest, hfirst, hrest, rfl⟩,
        parseItems_cons.2 ⟨first, rest, hfirst, hkept, rfl⟩⟩
    · have hnone := hsilent item List.mem_cons_self (Bool.not_eq_true _ ▸ hitem)
      rw [List.filter_cons_of_neg hitem]
      exact ⟨rest, parseItems_cons.2 ⟨([], []), rest, hnone, hrest, rfl⟩, hkept⟩

end Skipped

/-! ## What an item is made into -/

section Items

variable {py : TextBuiltins} {cfg : WebsocketConfig}

theorem gtRat_sub_finite {b a : ℚ} :
    (minus (.finite a) (.finite b)).gtRat cfg.maxSpreadForMidpoint = true ↔
      cfg.maxSpreadForMidpoint < a - b := by
  show decide (_ < a + -b) = true ↔ _
  rw [decide_eq_true_iff, ← sub_eq_add_neg]

theorem midpointTicks_eq_nil {source assetId : String} {timestampMs : ℤ} {bid ask : PyFloat} :
    midpointTicks cfg source assetId timestampMs bid ask = [] ↔
      (minus ask bid).gtRat cfg.maxSpreadForMidpoint = true := by
  unfold midpointTicks
  by_cases hwide : (minus ask bid).gtRat cfg.maxSpreadForMidpoint = true
  · exact ⟨fun _ => hwide, fun _ => if_pos hwide⟩
  · refine ⟨fun h => ?_, fun h => absurd h hwide⟩
    rw [if_neg hwide] at h
    exact nomatch h

theorem extractBestBidAsk_none {item : List (String × Value)} (h : bookSides item = none) :
    extractBestBidAsk py item = some none := by
  unfold bookSides at h
  by_cases hkeys : hasQuoteKeys item
  · rw [if_pos hkeys] at h
    exact nomatch h
  · rw [if_neg hkeys] at h
    refine (if_neg hkeys).trans (if_pos ?_)
    by_cases hbids : (getKey item "bids").truthy = true
    · by_cases hasks : (getKey item "asks").truthy = true
      · rw [hbids, hasks] at h
        exact nomatch h
      · have hnil : (getKey item "asks").orElse (.list []) = .list [] := if_neg hasks
        rw [hnil]
        exact Bool.or_true _
    · have hnil : (getKey item "bids").orElse (.list []) = .list [] := if_neg hbids
      rw [hnil]
      rfl

theorem extractBestBidAsk_some {item : List (String × Value)} {bid ask : Option Value}
    (h : bookSides item = some (bid, ask)) :
    extractBestBidAsk py item =
      (readSide py bid).bind fun b => (readSide py ask).bind fun a => some (some (b, a)) := by
  unfold bookSides at h
  by_cases hkeys : hasQuoteKeys item
  · rw [if_pos hkeys] at h
    obtain ⟨rfl, rfl⟩ := Prod.mk.inj (Option.some.inj h)
    exact if_pos hkeys
  · rw [if_neg hkeys] at h
    by_cases hboth : ((getKey item "bids").truthy && (getKey item "asks").truthy) = true
    · rw [if_pos hboth] at h
      obtain ⟨rfl, rfl⟩ := Prod.mk.inj (Option.some.inj h)
      obtain ⟨hbids, hasks⟩ := (Bool.and_eq_true _ _).mp hboth
      have hbids' : (getKey item "bids").orElse (.list []) = getKey item "bids" := if_pos hbids
      have hasks' : (getKey item "asks").orElse (.list []) = getKey item "asks" := if_pos hasks
      refine (if_neg hkeys).trans ?_
      rw [hbids', hasks']
      refine (if_neg (by rw [hbids, hasks]; exact Bool.false_ne_true)).trans ?_
      unfold readSide
      simp only [Option.bind_eq_bind, Option.bind_assoc]
    · rw [if_neg hboth] at h
      exact nomatch h

theorem parseBook_none {item : List (String × Value)} (h : bookSides item = none)
    (timestampMs : ℤ) : parseBook py cfg item timestampMs = some [] := by
  unfold parseBook
  rw [extractBestBidAsk_none h]
  rfl

/-- A book with sides is read if they are, and made into the tick of the quote. -/
theorem parseBook_eq_some {item : List (String × Value)} {bid ask : Option Value}
    (h : bookSides item = some (bid, ask)) {timestampMs : ℤ} {ticks : List ParsedTick} :
    parseBook py cfg item timestampMs = some ticks ↔
      ∃ b a, readSide py bid = some b ∧ readSide py ask = some a ∧
        ticks = midpointTicks cfg "midpoint_book" (pyStr py (getKey item "asset_id")) timestampMs
          b a := by
  unfold parseBook
  rw [extractBestBidAsk_some h]
  constructor
  · intro hread
    obtain ⟨quote, hquote, hread⟩ := Option.bind_eq_some_iff.1 hread
    obtain ⟨b, hb, hquote⟩ := Option.bind_eq_some_iff.1 hquote
    obtain ⟨a, ha, hquote⟩ := Option.bind_eq_some_iff.1 hquote
    obtain rfl := Option.some.inj hquote
    exact ⟨b, a, hb, ha, (Option.some.inj hread).symm⟩
  · rintro ⟨b, a, hb, ha, rfl⟩
    rw [hb, ha]
    rfl

theorem parseChange_eq_some {fields : List (String × Value)} {timestampMs : ℤ}
    {ticks : List ParsedTick} :
    parseChange py cfg timestampMs (.dict fields) = some ticks ↔
      ∃ b a, parseFloat py (getKey fields "best_bid") (-1) = some b ∧
        parseFloat py (getKey fields "best_ask") (-1) = some a ∧
        ticks = if b.ltRat 0 || a.ltRat 0 then []
          else midpointTicks cfg "midpoint_change" (pyStr py (getKey fields "asset_id")) timestampMs
            b a := by
  constructor
  · intro h
    obtain ⟨b, hb, h⟩ := Option.bind_eq_some_iff.1 h
    obtain ⟨a, ha, h⟩ := Option.bind_eq_some_iff.1 h
    refine ⟨b, a, hb, ha, ?_⟩
    by_cases hneg : (b.ltRat 0 || a.ltRat 0) = true
    · rw [if_pos hneg] at h ⊢
      exact (Option.some.inj h).symm
    · rw [if_neg hneg] at h ⊢
      exact (Option.some.inj h).symm
  · rintro ⟨b, a, hb, ha, rfl⟩
    refine Option.bind_eq_some_iff.2 ⟨b, hb, Option.bind_eq_some_iff.2 ⟨a, ha, ?_⟩⟩
    by_cases hneg : (b.ltRat 0 || a.ltRat 0) = true
    · rw [if_pos hneg, if_pos hneg]
    · rw [if_neg hneg, if_neg hneg]

/-! ## Silence -/

theorem parseBook_silent {item : List (String × Value)} (timestampMs : ℤ) :
    parseBook py cfg item timestampMs = some [] ↔ SilentBook py cfg item := by
  cases hsides : bookSides item with
  | none =>
    refine ⟨fun _ bid ask h => ?_, fun _ => parseBook_none hsides timestampMs⟩
    exact nomatch hsides.symm.trans h
  | some sides =>
    obtain ⟨bid, ask⟩ := sides
    rw [parseBook_eq_some hsides]
    constructor
    · rintro ⟨b, a, hb, ha, hnil⟩ bid' ask' h
      obtain ⟨rfl, rfl⟩ := Prod.mk.inj (Option.some.inj (hsides.symm.trans h))
      exact ⟨b, a, hb, ha, midpointTicks_eq_nil.1 hnil.symm⟩
    · intro h
      obtain ⟨b, a, hb, ha, hwide⟩ := h bid ask hsides
      exact ⟨b, a, hb, ha, (midpointTicks_eq_nil.2 hwide).symm⟩

theorem parseChange_silent (timestampMs : ℤ) {value : Value} :
    parseChange py cfg timestampMs value = some [] ↔ SilentChange py cfg value := by
  cases value with
  | dict change =>
    rw [parseChange_eq_some]
    constructor
    · rintro ⟨b, a, hb, ha, hnil⟩
      refine ⟨b, a, hb, ha, ?_⟩
      by_cases hneg : (b.ltRat 0 || a.ltRat 0) = true
      · exact .inl hneg
      · rw [if_neg hneg] at hnil
        exact .inr (midpointTicks_eq_nil.1 hnil.symm)
    · rintro ⟨b, a, hb, ha, hsilent⟩
      refine ⟨b, a, hb, ha, ?_⟩
      by_cases hneg : (b.ltRat 0 || a.ltRat 0) = true
      · rw [if_pos hneg]
      · rw [if_neg hneg]
        exact (midpointTicks_eq_nil.2 (hsilent.resolve_left hneg)).symm
  | null | bool | int | float | str | list => exact ⟨fun h => (nomatch h), fun h => h.elim⟩

theorem parseChanges_silent (timestampMs : ℤ) : ∀ {changes : List Value},
    parseChanges py cfg timestampMs changes = some [] ↔
      ∀ change ∈ changes, SilentChange py cfg change
  | [] => ⟨fun _ _ hmem => (nomatch hmem), fun _ => rfl⟩
  | change :: changes => by
    rw [parseChanges_cons, List.forall_mem_cons, ← parseChange_silent timestampMs,
      ← parseChanges_silent timestampMs]
    constructor
    · rintro ⟨first, rest, hfirst, hrest, heq⟩
      obtain ⟨rfl, rfl⟩ := List.append_eq_nil_iff.1 heq.symm
      exact ⟨hfirst, hrest⟩
    · rintro ⟨hfirst, hrest⟩
      exact ⟨[], [], hfirst, hrest, rfl⟩

/-- The events that are made into ticks, by what their bodies return. -/
theorem parseItem_ticks {item : List (String × Value)} {timestampMs : ℤ} {out : Output}
    (htime : parseTsMs py (getKey item "timestamp") = some timestampMs) :
    parseItem py cfg (.dict item) = some out ↔
      match eventType py item with
      | .book => ∃ ticks, parseBook py cfg item timestampMs = some ticks ∧ out = (ticks, [])
      | .priceChange =>
        ∃ changes ticks, iterateKey item "price_changes" = some changes ∧
          parseChanges py cfg timestampMs changes = some ticks ∧ out = (ticks, [])
      | .lastTrade => ∃ ticks, parseTrade py item timestampMs = some ticks ∧ out = (ticks, [])
      | .resolved => ∃ events, parseResolved py item timestampMs = some events ∧ out = ([], events)
      | .unknown => out = ([], []) := by
  show (parseTsMs py (getKey item "timestamp")).bind _ = _ ↔ _
  rw [htime, Option.bind_some]
  cases eventType py item with
  | book | lastTrade | resolved =>
    refine Option.map_eq_some_iff.trans (exists_congr fun made => and_congr_right fun _ => ?_)
    exact eq_comm
  | priceChange =>
    constructor
    · intro h
      obtain ⟨changes, hchanges, h⟩ := Option.bind_eq_some_iff.1 h
      obtain ⟨ticks, hticks, h⟩ := Option.bind_eq_some_iff.1 h
      exact ⟨changes, ticks, hchanges, hticks, (Option.some.inj h).symm⟩
    · rintro ⟨changes, ticks, hchanges, hticks, rfl⟩
      exact Option.bind_eq_some_iff.2 ⟨changes, hchanges,
        Option.bind_eq_some_iff.2 ⟨ticks, hticks, rfl⟩⟩
  | unknown => exact ⟨fun h => (Option.some.inj h).symm, fun h => congrArg some h.symm⟩

theorem parseItem_untimed {item : List (String × Value)}
    (htime : parseTsMs py (getKey item "timestamp") = none) :
    parseItem py cfg (.dict item) = none := by
  show (parseTsMs py (getKey item "timestamp")).bind _ = _
  rw [htime]
  rfl

theorem parseTrade_eq_some {item : List (String × Value)} {timestampMs : ℤ}
    {ticks : List ParsedTick} :
    parseTrade py item timestampMs = some ticks ↔
      ∃ price, parseFloat py (getKey item "price") 0 = some price ∧
        ticks = [{ assetId := pyStr py (getKey item "asset_id"), price := price, bestBid := none
                   bestAsk := none, spread := none, signalSource := "last_trade"
                   quoteTsMs := none, timestampMs := timestampMs }] := by
  refine Option.bind_eq_some_iff.trans (exists_congr fun price => and_congr_right fun _ => ?_)
  exact ⟨fun h => (Option.some.inj h).symm, fun h => congrArg some h.symm⟩

theorem parseItem_silent_iff {item : Value} :
    parseItem py cfg item = some ([], []) ↔ Harmless py cfg item := by
  cases item with
  | dict item =>
    show _ ↔ (parseTsMs py (getKey item "timestamp")).isSome = true ∧ _
    cases htime : parseTsMs py (getKey item "timestamp") with
    | none =>
      rw [parseItem_untimed htime]
      exact ⟨fun h => (nomatch h), fun h => (nomatch h.1)⟩
    | some timestampMs =>
      rw [parseItem_ticks htime]
      refine Iff.trans ?_ (and_iff_right rfl).symm
      cases eventType py item with
      | book =>
        show (∃ ticks, _) ↔ SilentBook py cfg item
        rw [← parseBook_silent timestampMs]
        constructor
        · rintro ⟨ticks, hticks, hout⟩
          exact hticks.trans (congrArg some (Prod.mk.inj hout).1.symm)
        · intro hnil
          exact ⟨[], hnil, rfl⟩
      | priceChange =>
        constructor
        · rintro ⟨changes, ticks, hchanges, hticks, hout⟩
          obtain rfl := (Prod.mk.inj hout).1
          exact ⟨changes, hchanges, (parseChanges_silent timestampMs).1 hticks⟩
        · rintro ⟨changes, hchanges, hsilent⟩
          exact ⟨changes, [], hchanges, (parseChanges_silent timestampMs).2 hsilent, rfl⟩
      | lastTrade =>
        refine ⟨?_, False.elim⟩
        rintro ⟨ticks, hticks, hout⟩
        obtain ⟨price, -, rfl⟩ := parseTrade_eq_some.1 hticks
        exact nomatch hout
      | resolved =>
        refine ⟨?_, False.elim⟩
        rintro ⟨events, hevents, hout⟩
        obtain ⟨assetIds, -, hevents⟩ := Option.bind_eq_some_iff.1 hevents
        obtain rfl := Option.some.inj hevents
        exact nomatch hout
      | unknown => exact ⟨fun _ => trivial, fun _ => rfl⟩
  | null | bool | int | float | str | list => exact ⟨fun _ => trivial, fun _ => rfl⟩

/-! ## Readable items are read -/

theorem parseBook_isSome (cfg : WebsocketConfig) (timestampMs : ℤ) {item : List (String × Value)} :
    (parseBook py cfg item timestampMs).isSome = true ↔ ReadableBook py item := by
  cases hsides : bookSides item with
  | none =>
    refine ⟨fun _ bid ask h => ?_, fun _ => ?_⟩
    · exact nomatch hsides.symm.trans h
    · rw [parseBook_none hsides]
      rfl
  | some sides =>
    rw [Option.isSome_iff_exists]
    constructor
    · rintro ⟨ticks, hticks⟩ bid ask h
      obtain ⟨b, a, hb, ha, -⟩ := (parseBook_eq_some h).1 hticks
      rw [hb, ha]
      exact ⟨rfl, rfl⟩
    · intro hread
      obtain ⟨hbid, hask⟩ := hread sides.1 sides.2 hsides
      obtain ⟨b, hb⟩ := Option.isSome_iff_exists.1 hbid
      obtain ⟨a, ha⟩ := Option.isSome_iff_exists.1 hask
      exact ⟨_, (parseBook_eq_some hsides).2 ⟨b, a, hb, ha, rfl⟩⟩

theorem parseChange_isSome (cfg : WebsocketConfig) (timestampMs : ℤ) {value : Value} :
    (parseChange py cfg timestampMs value).isSome = true ↔ ReadableChange py value := by
  cases value with
  | dict change =>
    rw [Option.isSome_iff_exists]
    constructor
    · rintro ⟨ticks, hticks⟩
      obtain ⟨b, a, hb, ha, -⟩ := parseChange_eq_some.1 hticks
      exact ⟨Option.isSome_iff_exists.2 ⟨b, hb⟩, Option.isSome_iff_exists.2 ⟨a, ha⟩⟩
    · rintro ⟨hbid, hask⟩
      obtain ⟨b, hb⟩ := Option.isSome_iff_exists.1 hbid
      obtain ⟨a, ha⟩ := Option.isSome_iff_exists.1 hask
      exact ⟨_, parseChange_eq_some.2 ⟨b, a, hb, ha, rfl⟩⟩
  | null | bool | int | float | str | list => exact ⟨fun h => (nomatch h), fun h => h.elim⟩

theorem parseChanges_isSome (cfg : WebsocketConfig) (timestampMs : ℤ) : ∀ {changes : List Value},
    (parseChanges py cfg timestampMs changes).isSome = true ↔
      ∀ change ∈ changes, ReadableChange py change
  | [] => ⟨fun _ _ hmem => (nomatch hmem), fun _ => rfl⟩
  | change :: changes => by
    rw [List.forall_mem_cons, ← parseChange_isSome cfg timestampMs,
      ← parseChanges_isSome cfg timestampMs, Option.isSome_iff_exists]
    constructor
    · rintro ⟨ticks, hticks⟩
      obtain ⟨first, rest, hfirst, hrest, -⟩ := parseChanges_cons.1 hticks
      exact ⟨Option.isSome_iff_exists.2 ⟨first, hfirst⟩, Option.isSome_iff_exists.2 ⟨rest, hrest⟩⟩
    · rintro ⟨hfirst, hrest⟩
      obtain ⟨first, hfirst⟩ := Option.isSome_iff_exists.1 hfirst
      obtain ⟨rest, hrest⟩ := Option.isSome_iff_exists.1 hrest
      exact ⟨_, parseChanges_cons.2 ⟨first, rest, hfirst, hrest, rfl⟩⟩

theorem parseItem_isSome {item : Value} :
    (parseItem py cfg item).isSome = true ↔ Readable py item := by
  cases item with
  | dict item =>
    show _ ↔ (parseTsMs py (getKey item "timestamp")).isSome = true ∧ _
    cases htime : parseTsMs py (getKey item "timestamp") with
    | none =>
      rw [parseItem_untimed htime]
      exact ⟨fun h => (nomatch h), fun h => (nomatch h.1)⟩
    | some timestampMs =>
      simp only [Option.isSome_iff_exists (x := parseItem py cfg _), parseItem_ticks htime]
      refine Iff.trans ?_ (and_iff_right rfl).symm
      cases eventType py item with
      | book =>
        show (∃ out, ∃ ticks, _) ↔ ReadableBook py item
        rw [← parseBook_isSome cfg timestampMs, Option.isSome_iff_exists]
        exact ⟨fun ⟨_, ticks, hticks, _⟩ => ⟨ticks, hticks⟩,
          fun ⟨ticks, hticks⟩ => ⟨_, ticks, hticks, rfl⟩⟩
      | priceChange =>
        constructor
        · rintro ⟨_, changes, ticks, hchanges, hticks, -⟩
          exact ⟨changes, hchanges,
            (parseChanges_isSome cfg timestampMs).1 (Option.isSome_iff_exists.2 ⟨ticks, hticks⟩)⟩
        · rintro ⟨changes, hchanges, hread⟩
          obtain ⟨ticks, hticks⟩ := Option.isSome_iff_exists.1
            ((parseChanges_isSome cfg timestampMs).2 hread)
          exact ⟨_, changes, ticks, hchanges, hticks, rfl⟩
      | lastTrade =>
        show _ ↔ (parseFloat py (getKey item "price") 0).isSome = true
        rw [Option.isSome_iff_exists]
        constructor
        · rintro ⟨_, ticks, hticks, -⟩
          obtain ⟨price, hprice, -⟩ := parseTrade_eq_some.1 hticks
          exact ⟨price, hprice⟩
        · rintro ⟨price, hprice⟩
          exact ⟨_, _, parseTrade_eq_some.2 ⟨price, hprice, rfl⟩, rfl⟩
      | resolved =>
        show _ ↔ (iterateKey item "assets_ids").isSome = true
        rw [Option.isSome_iff_exists]
        constructor
        · rintro ⟨_, events, hevents, -⟩
          obtain ⟨assetIds, hassets, -⟩ := Option.bind_eq_some_iff.1 hevents
          exact ⟨assetIds, hassets⟩
        · rintro ⟨assetIds, hassets⟩
          exact ⟨_, _, Option.bind_eq_some_iff.2 ⟨assetIds, hassets, rfl⟩, rfl⟩
      | unknown => exact ⟨fun _ => trivial, fun _ => ⟨_, rfl⟩⟩
  | null | bool | int | float | str | list => exact ⟨fun _ => trivial, fun _ => rfl⟩

/-- A frame is dropped just if an item of it raises. -/
theorem parseMessage_isSome (cfg : WebsocketConfig) {payload : Value} :
    (parseMessage py cfg payload).isSome = true ↔
      ∀ item ∈ frameItems payload, Readable py item := by
  unfold parseMessage
  rw [parseItems_isSome]
  exact forall₂_congr fun _ _ => parseItem_isSome

/-! ## Well-formed items are readable -/

theorem isQuoted_numbers {fields : List (String × Value)} (h : isQuoted py fields = true) :
    ∃ bid ask, numeric py (getKey fields "best_bid") = some bid ∧
      numeric py (getKey fields "best_ask") = some ask := by
  obtain ⟨hbid, hask⟩ := (Bool.and_eq_true _ _).mp h
  obtain ⟨bid, hbid⟩ := Option.isSome_iff_exists.1 hbid
  obtain ⟨ask, hask⟩ := Option.isSome_iff_exists.1 hask
  exact ⟨bid, ask, hbid, hask⟩

/-- The first of the levels there are has a price. -/
theorem isListOf_firstPrice {value : Value} (h : isListOf (isLevel py) value = true)
    (htruthy : value.truthy = true) : (readSide py (firstPrice value)).isSome = true := by
  cases value with
  | list levels =>
    cases levels with
    | nil => exact nomatch htruthy
    | cons level levels =>
      have hlevel : isLevel py level = true := List.all_eq_true.1 h level List.mem_cons_self
      cases level with
      | dict fields =>
        obtain ⟨price, hprice⟩ := Option.isSome_iff_exists.1 hlevel
        show (parseFloat py (getKey fields "price") 0).isSome = true
        rw [parseFloat_numeric hprice]
        rfl
      | null | bool | int | float | str | list => exact nomatch hlevel
  | null | bool | int | float | str | dict => exact nomatch h

theorem wellFormedBook_readable {item : List (String × Value)}
    (h : wellFormedBook py item = true) : ReadableBook py item := by
  intro bid ask hsides
  replace h := ((Bool.and_eq_true _ _).mp h).2
  unfold bookSides at hsides
  by_cases hkeys : hasQuoteKeys item
  · rw [if_pos hkeys] at h hsides
    obtain ⟨rfl, rfl⟩ := Prod.mk.inj (Option.some.inj hsides)
    obtain ⟨bid, ask, hbid, hask⟩ := isQuoted_numbers h
    show (parseFloat py _ 0).isSome = true ∧ (parseFloat py _ 0).isSome = true
    rw [parseFloat_numeric hbid, parseFloat_numeric hask]
    exact ⟨rfl, rfl⟩
  · rw [if_neg hkeys] at h hsides
    obtain ⟨hlevels, hlevels'⟩ := (Bool.and_eq_true _ _).mp h
    by_cases hboth : ((getKey item "bids").truthy && (getKey item "asks").truthy) = true
    · rw [if_pos hboth] at hsides
      obtain ⟨rfl, rfl⟩ := Prod.mk.inj (Option.some.inj hsides)
      obtain ⟨hbids, hasks⟩ := (Bool.and_eq_true _ _).mp hboth
      exact ⟨isListOf_firstPrice hlevels hbids, isListOf_firstPrice hlevels' hasks⟩
    · rw [if_neg hboth] at hsides
      exact nomatch hsides

theorem isChange_readable {change : Value} (h : isChange py change = true) :
    ReadableChange py change := by
  cases change with
  | dict fields =>
    obtain ⟨bid, ask, hbid, hask⟩ := isQuoted_numbers ((Bool.and_eq_true _ _).mp h).2
    show (parseFloat py _ _).isSome = true ∧ (parseFloat py _ _).isSome = true
    rw [parseFloat_numeric hbid, parseFloat_numeric hask]
    exact ⟨rfl, rfl⟩
  | null | bool | int | float | str | list => exact nomatch h

theorem isListOf_iterateKey {item : List (String × Value)} {key : String} {p : Value → Bool}
    (h : isListOf p (getKey item key) = true) :
    ∃ values, iterateKey item key = some values ∧ ∀ value ∈ values, p value = true := by
  unfold iterateKey
  unfold getKey at h
  cases hfield : field item key with
  | none =>
    rw [hfield] at h
    exact nomatch h
  | some value =>
    rw [hfield] at h
    cases value with
    | list values => exact ⟨values, rfl, List.all_eq_true.1 h⟩
    | null | bool | int | float | str | dict => exact nomatch h

theorem wellFormed_readable {item : Value} (h : wellFormed py item = true) : Readable py item := by
  cases item with
  | dict item =>
    obtain ⟨h, htype⟩ := (Bool.and_eq_true _ _).mp h
    refine ⟨parseTsMs_isTime ((Bool.and_eq_true _ _).mp h).2, ?_⟩
    cases hevent : eventType py item with
    | book =>
      rw [hevent] at htype
      exact wellFormedBook_readable htype
    | priceChange =>
      rw [hevent] at htype
      obtain ⟨changes, hchanges, hall⟩ := isListOf_iterateKey htype
      exact ⟨changes, hchanges, fun change hmem => isChange_readable (hall change hmem)⟩
    | lastTrade =>
      rw [hevent] at htype
      obtain ⟨price, hprice⟩ :=
        Option.isSome_iff_exists.1 ((Bool.and_eq_true _ _).mp htype).2
      show (parseFloat py _ 0).isSome = true
      rw [parseFloat_numeric hprice]
      rfl
    | resolved =>
      rw [hevent] at htype
      obtain ⟨assetIds, hassets, -⟩ := isListOf_iterateKey ((Bool.and_eq_true _ _).mp htype).2
      exact Option.isSome_iff_exists.2 ⟨assetIds, hassets⟩
    | unknown => exact trivial
  | null | bool | int | float | str | list => exact nomatch h

end Items

/-! ## Frames -/

/-- A frame is read to what its well-formed items are made into just if all others are harmless:
what is not a dict is, and so are an empty or too wide book and changes that are negative or too
wide. -/
theorem frameKept_iff (py : TextBuiltins) (cfg : WebsocketConfig) (items : List Value) :
    FrameKept py cfg items ↔ ∀ item ∈ items, wellFormed py item = false → Harmless py cfg item := by
  constructor
  · rintro ⟨out, hread, hkept⟩ item hmem hbad
    exact parseItem_silent_iff.1 (silent_of_kept hread hkept item hmem hbad)
  · intro hharmless
    exact kept_of_silent (fun _ hgood => parseItem_isSome.2 (wellFormed_readable hgood))
      fun item hmem hbad => parseItem_silent_iff.2 (hharmless item hmem hbad)

/-! ## A resolution that is lost -/

namespace Sample

def strip (s : String) : String :=
  .ofList ((s.toList.dropWhile Char.isWhitespace).reverse.dropWhile Char.isWhitespace).reverse

/-- Texts of digits are read, all others are not. -/
def textBuiltins : TextBuiltins where
  strip := strip
  isdigit s := s ≠ "" ∧ s.toList.all Char.isDigit
  int s := s.toInt?
  float s := s.toInt?.map fun n => .finite n
  isoMs _ := none
  repr _ := ""

def websocketConfig : WebsocketConfig where
  maxSpreadForMidpoint := 1 / 10

/-- An update of prices with a null for its list. -/
def nullChanges : Value :=
  .dict [("event_type", .str "price_change"), ("timestamp", .int 1757908892351),
    ("price_changes", .null)]

def resolution : Value :=
  .dict [("event_type", .str "market_resolved"), ("market", .str "market-1"),
    ("winning_asset_id", .str "asset-book"), ("winning_outcome", .str "Yes"),
    ("assets_ids", .list [.str "asset-book", .str "asset-other"]),
    ("timestamp", .int 1766790415550)]

end Sample

/-- The resolution alone is read; beside an update without a list, it is not. -/
theorem resolution_lost :
    wellFormed Sample.textBuiltins Sample.resolution = true ∧
      (parseMessage Sample.textBuiltins Sample.websocketConfig (.list [Sample.resolution])).isSome ∧
      parseMessage Sample.textBuiltins Sample.websocketConfig
        (.list [Sample.nullChanges, Sample.resolution]) = none ∧
      ¬ FrameKept Sample.textBuiltins Sample.websocketConfig
        [Sample.nullChanges, Sample.resolution] := by
  have hnone : parseMessage Sample.textBuiltins Sample.websocketConfig
      (.list [Sample.nullChanges, Sample.resolution]) = none := rfl
  refine ⟨rfl, rfl, hnone, ?_⟩
  rintro ⟨out, hread, -⟩
  exact nomatch hnone.symm.trans hread

end Sentinel.Ingestion
