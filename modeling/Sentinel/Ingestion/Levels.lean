import Mathlib.Order.Bounds.Basic
import Sentinel.Ingestion.Frames

/-!
# The levels of a book

* `LevelBook`: a book that gives the levels of its sides and not its best bid and ask.
* `bestOfBook_iff`: its best levels are what it is read from just if they are the first, and their
  order does not matter just if either no two of them are close enough or all have the same price.
-/

namespace Sentinel.Ingestion

open Logic

/-- A book with a nonempty list of levels with prices on either side. -/
structure LevelBook (py : TextBuiltins) : Type where
  item : List (String × Value)
  timestampMs : ℤ
  bid : Value
  bids : List Value
  ask : Value
  asks : List Value
  event : eventType py item = .book
  time : parseTsMs py (getKey item "timestamp") = some timestampMs
  noKeys : ¬ hasQuoteKeys item
  bidLevels : getKey item "bids" = .list (bid :: bids)
  askLevels : getKey item "asks" = .list (ask :: asks)
  bidPrices : ∀ level ∈ bid :: bids, isLevel py level = true
  askPrices : ∀ level ∈ ask :: asks, isLevel py level = true

/-- The prices of a side. -/
def prices (py : TextBuiltins) (levels : List Value) : Set ℚ :=
  {p | ∃ level ∈ levels, levelPrice py level = some p}

theorem prices_perm {py : TextBuiltins} {levels levels' : List Value}
    (hperm : levels'.Perm levels) : prices py levels' = prices py levels := by
  ext p
  exact exists_congr fun level => and_congr_left fun _ => hperm.mem_iff

namespace LevelBook

variable {py : TextBuiltins} (cfg : WebsocketConfig) (book other : LevelBook py)

def bidSide : List Value := book.bid :: book.bids

def askSide : List Value := book.ask :: book.asks

/-- The highest bid and the lowest ask are what is extracted, and what the tick is made of. -/
def UsesBest : Prop :=
  ∃ b a, IsGreatest (prices py book.bidSide) b ∧ IsLeast (prices py book.askSide) a ∧
    extractBestBidAsk py book.item = some (some (.finite b, .finite a)) ∧
    parseMessage py cfg (.dict book.item) = some (midpointTicks cfg "midpoint_book"
      (pyStr py (getKey book.item "asset_id")) book.timestampMs (.finite b) (.finite a), [])

/-- No bid is above the first and no ask below the first. -/
def BestFirst : Prop :=
  (∀ p, levelPrice py book.bid = some p → p ∈ upperBounds (prices py book.bidSide)) ∧
    ∀ p, levelPrice py book.ask = some p → p ∈ lowerBounds (prices py book.askSide)

/-- The same levels in another order. -/
structure Reordering : Prop where
  asset : getKey other.item "asset_id" = getKey book.item "asset_id"
  time : other.timestampMs = book.timestampMs
  bids : other.bidSide.Perm book.bidSide
  asks : other.askSide.Perm book.askSide

def OrderFree : Prop :=
  ∀ other : LevelBook py, book.Reordering other →
    parseMessage py cfg (.dict other.item) = parseMessage py cfg (.dict book.item)

/-- Any bid is too far from any ask. -/
def AllTooWide : Prop :=
  ∀ p ∈ prices py book.bidSide, ∀ q ∈ prices py book.askSide, cfg.maxSpreadForMidpoint < q - p

/-- Either side has one price. -/
def OnePrice : Prop :=
  (prices py book.bidSide).Subsingleton ∧ (prices py book.askSide).Subsingleton

variable {cfg} {book other}

/-! ## What a book is read from -/

theorem readSide_level {level : Value} {levels : List Value} {p : ℚ}
    (hprice : levelPrice py level = some p) :
    readSide py (firstPrice (.list (level :: levels))) = some (.finite p) := by
  cases level with
  | dict fields => exact parseFloat_numeric hprice 0
  | null | bool | int | float | str | list => exact nomatch hprice

theorem sides : bookSides book.item =
    some (firstPrice (.list book.bidSide), firstPrice (.list book.askSide)) := by
  unfold bookSides
  rw [if_neg book.noKeys, book.bidLevels, book.askLevels]
  rfl

theorem exists_prices (book : LevelBook py) :
    ∃ p q, levelPrice py book.bid = some p ∧ levelPrice py book.ask = some q := by
  obtain ⟨p, hp⟩ := Option.isSome_iff_exists.1 (book.bidPrices _ List.mem_cons_self)
  obtain ⟨q, hq⟩ := Option.isSome_iff_exists.1 (book.askPrices _ List.mem_cons_self)
  exact ⟨p, q, hp, hq⟩

theorem extract_first {p q : ℚ} (hbid : levelPrice py book.bid = some p)
    (hask : levelPrice py book.ask = some q) :
    extractBestBidAsk py book.item = some (some (.finite p, .finite q)) := by
  rw [extractBestBidAsk_some book.sides]
  unfold bidSide askSide
  rw [readSide_level hbid, readSide_level hask]
  rfl

theorem parse_first {p q : ℚ} (hbid : levelPrice py book.bid = some p)
    (hask : levelPrice py book.ask = some q) :
    parseMessage py cfg (.dict book.item) = some (midpointTicks cfg "midpoint_book"
      (pyStr py (getKey book.item "asset_id")) book.timestampMs (.finite p) (.finite q), []) := by
  have hticks : parseBook py cfg book.item book.timestampMs = some _ :=
    (parseBook_eq_some book.sides).2 ⟨_, _, readSide_level hbid, readSide_level hask, rfl⟩
  have hitem : parseItem py cfg (.dict book.item) = some (_, []) :=
    (parseItem_ticks book.time).2 (by rw [book.event]; exact ⟨_, hticks, rfl⟩)
  exact parseItems_cons.2 ⟨_, ([], []), hitem, rfl, by rw [List.append_nil, List.append_nil]⟩

theorem mem_bidSide (book : LevelBook py) : book.bid ∈ book.bidSide := List.mem_cons_self

theorem mem_askSide (book : LevelBook py) : book.ask ∈ book.askSide := List.mem_cons_self

theorem usesBest_iff : book.UsesBest cfg ↔ book.BestFirst := by
  obtain ⟨p, q, hp, hq⟩ := book.exists_prices
  constructor
  · rintro ⟨b, a, hgreatest, hleast, hextract, -⟩
    rw [extract_first hp hq] at hextract
    obtain ⟨hb, ha⟩ := Prod.mk.inj (Option.some.inj (Option.some.inj hextract))
    obtain rfl := PyFloat.finite.inj hb
    obtain rfl := PyFloat.finite.inj ha
    refine ⟨fun p' hp' => ?_, fun q' hq' => ?_⟩
    · obtain rfl := Option.some.inj (hp.symm.trans hp')
      exact hgreatest.2
    · obtain rfl := Option.some.inj (hq.symm.trans hq')
      exact hleast.2
  · rintro ⟨hbid, hask⟩
    exact ⟨p, q, ⟨⟨_, book.mem_bidSide, hp⟩, hbid p hp⟩, ⟨⟨_, book.mem_askSide, hq⟩, hask q hq⟩,
      extract_first hp hq, parse_first hp hq⟩

/-! ## Other orders -/

/-- Any level can be the first of a reordering. -/
theorem exists_reordering {x y : Value} (hx : x ∈ book.bidSide) (hy : y ∈ book.askSide) :
    ∃ other : LevelBook py, book.Reordering other ∧ other.bid = x ∧ other.ask = y := by
  obtain ⟨bids, bids', hbids⟩ := List.append_of_mem hx
  obtain ⟨asks, asks', hasks⟩ := List.append_of_mem hy
  have hperm : (x :: (bids ++ bids')).Perm book.bidSide := by
    rw [hbids]
    exact List.perm_middle.symm
  have hperm' : (y :: (asks ++ asks')).Perm book.askSide := by
    rw [hasks]
    exact List.perm_middle.symm
  refine ⟨
    { item := [("event_type", .str "book"), ("asset_id", getKey book.item "asset_id"),
        ("timestamp", getKey book.item "timestamp"), ("bids", .list (x :: (bids ++ bids'))),
        ("asks", .list (y :: (asks ++ asks')))]
      timestampMs := book.timestampMs
      bid := x, bids := bids ++ bids', ask := y, asks := asks ++ asks'
      event := rfl
      time := book.time
      noKeys := fun h => (nomatch h.1)
      bidLevels := rfl
      askLevels := rfl
      bidPrices := fun level hmem => book.bidPrices level (hperm.mem_iff.1 hmem)
      askPrices := fun level hmem => book.askPrices level (hperm'.mem_iff.1 hmem) },
    ⟨rfl, rfl, hperm, hperm'⟩, rfl, rfl⟩

/-- A quote that is made into a tick is the only one that is made into it. -/
theorem midpointTicks_quote {source assetId : String} {timestampMs : ℤ} {b a b' a' : ℚ}
    (hsame : midpointTicks cfg source assetId timestampMs (.finite b) (.finite a) =
      midpointTicks cfg source assetId timestampMs (.finite b') (.finite a'))
    (hmade : ¬ cfg.maxSpreadForMidpoint < a' - b') : b = b' ∧ a = a' := by
  unfold midpointTicks at hsame
  rw [if_neg fun h => hmade (gtRat_sub_finite.1 h)] at hsame
  by_cases hwide : (minus (.finite a) (.finite b)).gtRat cfg.maxSpreadForMidpoint = true
  · rw [if_pos hwide] at hsame
    exact nomatch hsame
  · rw [if_neg hwide] at hsame
    have htick := (List.cons_eq_cons.1 hsame).1
    have hbid : some (PyFloat.finite b) = some (.finite b') := congrArg ParsedTick.bestBid htick
    have hask : some (PyFloat.finite a) = some (.finite a') := congrArg ParsedTick.bestAsk htick
    exact ⟨PyFloat.finite.inj (Option.some.inj hbid), PyFloat.finite.inj (Option.some.inj hask)⟩

/-- If the order does not matter, any bid and ask are read to what the first are. -/
theorem OrderFree.ticks_eq (hfree : book.OrderFree cfg) {x y : Value} {p q p' q' : ℚ}
    (hbid : levelPrice py book.bid = some p) (hask : levelPrice py book.ask = some q)
    (hx : x ∈ book.bidSide) (hy : y ∈ book.askSide) (hp : levelPrice py x = some p')
    (hq : levelPrice py y = some q') :
    midpointTicks cfg "midpoint_book" (pyStr py (getKey book.item "asset_id")) book.timestampMs
        (.finite p') (.finite q') =
      midpointTicks cfg "midpoint_book" (pyStr py (getKey book.item "asset_id")) book.timestampMs
        (.finite p) (.finite q) := by
  obtain ⟨other, hother, rfl, rfl⟩ := exists_reordering hx hy
  have hsame := hfree other hother
  rw [parse_first hbid hask, parse_first hp hq, hother.asset, hother.time] at hsame
  exact (Prod.mk.inj (Option.some.inj hsame)).1

theorem orderFree_iff : book.OrderFree cfg ↔ book.AllTooWide cfg ∨ book.OnePrice := by
  obtain ⟨p, q, hp, hq⟩ := book.exists_prices
  constructor
  · intro hfree
    refine or_iff_not_imp_left.2 fun hwide => ?_
    unfold AllTooWide at hwide
    push Not at hwide
    obtain ⟨p', ⟨x, hx, hp'⟩, q', ⟨y, hy, hq'⟩, hmade⟩ := hwide
    have hfirst := hfree.ticks_eq hp hq hx hy hp' hq'
    -- any two levels make the tick that `x` and `y` make
    have hall : ∀ r ∈ prices py book.bidSide, ∀ t ∈ prices py book.askSide, r = p' ∧ t = q' := by
      rintro r ⟨level, hmem, hr⟩ t ⟨level', hmem', ht⟩
      exact midpointTicks_quote ((hfree.ticks_eq hp hq hmem hmem' hr ht).trans hfirst.symm)
        (not_lt.2 hmade)
    refine ⟨fun r hr r' hr' => ?_, fun t ht t' ht' => ?_⟩
    · have hone := hall r hr q' ⟨y, hy, hq'⟩
      have hone' := hall r' hr' q' ⟨y, hy, hq'⟩
      exact hone.1.trans hone'.1.symm
    · have hone := hall p' ⟨x, hx, hp'⟩ t ht
      have hone' := hall p' ⟨x, hx, hp'⟩ t' ht'
      exact hone.2.trans hone'.2.symm
  · intro hcases other hother
    obtain ⟨r, t, hr, ht⟩ := other.exists_prices
    have hmem : r ∈ prices py book.bidSide := by
      rw [← prices_perm hother.bids]
      exact ⟨_, other.mem_bidSide, hr⟩
    have hmem' : t ∈ prices py book.askSide := by
      rw [← prices_perm hother.asks]
      exact ⟨_, other.mem_askSide, ht⟩
    rw [parse_first hr ht, parse_first hp hq, hother.asset, hother.time]
    rcases hcases with hwide | ⟨hbids, hasks⟩
    · rw [midpointTicks_eq_nil.2 (gtRat_sub_finite.2 (hwide r hmem t hmem')),
        midpointTicks_eq_nil.2 (gtRat_sub_finite.2
          (hwide p ⟨_, book.mem_bidSide, hp⟩ q ⟨_, book.mem_askSide, hq⟩))]
    · rw [hbids hmem ⟨_, book.mem_bidSide, hp⟩, hasks hmem' ⟨_, book.mem_askSide, hq⟩]

end LevelBook

/-- A book of levels is read from its best bid and ask just if they are the first of their lists; and
it is read to the same in every order of its levels just if no bid and ask are close enough for a
tick, or if all bids have one price and all asks one. -/
theorem bestOfBook_iff (py : TextBuiltins) (cfg : WebsocketConfig) (book : LevelBook py) :
    (book.UsesBest cfg ↔ book.BestFirst) ∧
      (book.OrderFree cfg ↔ book.AllTooWide cfg ∨ book.OnePrice) :=
  ⟨LevelBook.usesBest_iff, LevelBook.orderFree_iff⟩

namespace Sample

def level (price : ℚ) : Value := .dict [("price", .float (.finite price))]

/-- A book with its best levels last. -/
def risingBids : LevelBook textBuiltins where
  item := [("event_type", .str "book"), ("asset_id", .str "asset-book"),
    ("bids", .list [level (1 / 100), level (48 / 100)]),
    ("asks", .list [level (99 / 100), level (52 / 100)]), ("timestamp", .int 123456789000)]
  timestampMs := 123456789000
  bid := level (1 / 100)
  bids := [level (48 / 100)]
  ask := level (99 / 100)
  asks := [level (52 / 100)]
  event := rfl
  time := rfl
  noKeys := fun h => (nomatch h.1)
  bidLevels := rfl
  askLevels := rfl
  bidPrices := by simp [isLevel, levelPrice, level, getKey, field, numeric]
  askPrices := by simp [isLevel, levelPrice, level, getKey, field, numeric]

end Sample

/-- The best levels are close enough for a tick, and no tick is made. -/
theorem risingBids_silent :
    (parseMessage Sample.textBuiltins Sample.websocketConfig (.dict Sample.risingBids.item)).map
        (·.1) = some [] ∧
      ¬ Sample.risingBids.UsesBest Sample.websocketConfig ∧
      ¬ Sample.risingBids.OrderFree Sample.websocketConfig := by
  have hbid : 48 / 100 ∈ prices Sample.textBuiltins Sample.risingBids.bidSide :=
    ⟨Sample.level (48 / 100), List.mem_cons_of_mem _ List.mem_cons_self, rfl⟩
  have hask : 52 / 100 ∈ prices Sample.textBuiltins Sample.risingBids.askSide :=
    ⟨Sample.level (52 / 100), List.mem_cons_of_mem _ List.mem_cons_self, rfl⟩
  refine ⟨by decide +kernel, fun hbest => ?_, fun hfree => ?_⟩
  · have hle := (LevelBook.usesBest_iff.1 hbest).1 (1 / 100) rfl hbid
    norm_num at hle
  · rcases LevelBook.orderFree_iff.1 hfree with hwide | hone
    · have hlt : 1 / 10 < (52 / 100 : ℚ) - 48 / 100 := hwide _ hbid _ hask
      norm_num at hlt
    · have heq := hone.1 hbid ⟨Sample.level (1 / 100), List.mem_cons_self, rfl⟩
      norm_num at heq

end Sentinel.Ingestion
