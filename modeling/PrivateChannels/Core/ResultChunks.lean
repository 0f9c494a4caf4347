import Mathlib

/-!
# The messages of one executed batch

`chunk_ranges` closes a chunk before the transaction that would take it past a cap;
`send_results_chunked` drains both lists by the ranges.
-/

namespace PrivateChannels.Core

/-- What a result retains, the address rows of a transaction, and the caps. -/
structure Chunking (ρ τ : Type*) where
  retainedBytesOf : ρ → τ → ℕ
  accountKeys : τ → ℕ
  byteCap : ℕ
  rowCap : ℕ

/-- Where a chunk starts and ends, and what it retains. -/
structure ChunkRange where
  start : ℕ
  stop : ℕ
  bytes : ℕ
  rows : ℕ
  deriving DecidableEq, Repr

/-- A message to the settler. -/
structure ResultMessage (ρ τ : Type*) where
  results : List ρ
  transactions : List τ
  generation : ℕ
  admission : Option ℕ
  deriving DecidableEq, Repr

variable {ρ τ : Type*}

namespace Chunking

/-- The loop of `chunk_ranges` from an index on, with the open chunk and its sums. -/
def rangesFrom (c : Chunking ρ τ) : ℕ → ChunkRange → List (ρ × τ) → List ChunkRange
  | index, chunk, (result, transaction) :: rest =>
    let bytes := c.retainedBytesOf result transaction
    let rows := c.accountKeys transaction
    if chunk.start < index ∧ (c.byteCap < chunk.bytes + bytes ∨ c.rowCap < chunk.rows + rows) then
      { chunk with stop := index } :: c.rangesFrom (index + 1) ⟨index, index, bytes, rows⟩ rest
    else
      c.rangesFrom (index + 1)
        { chunk with bytes := chunk.bytes + bytes, rows := chunk.rows + rows } rest
  | index, chunk, [] => if chunk.start < index then [{ chunk with stop := index }] else []

/-- `chunk_ranges`; a batch whose lengths disagree has none. -/
def chunkRanges (c : Chunking ρ τ) (results : List ρ) (transactions : List τ) : List ChunkRange :=
  if results.length ≠ transactions.length then []
  else c.rangesFrom 0 ⟨0, 0, 0, 0⟩ (results.zip transactions)

/-- The loop that drains both lists; the tag rides the last message. -/
def drain (generation : ℕ) (admission : Option ℕ) :
    List ChunkRange → List ρ → List τ → List (ResultMessage ρ τ)
  | [], _, _ => []
  | range :: ranges, results, transactions =>
    let take := range.stop - range.start
    ⟨results.take take, transactions.take take, generation,
        if ranges = [] then admission else none⟩ ::
      drain generation admission ranges (results.drop take) (transactions.drop take)

/-- What `send_results_chunked` puts on a queue that stays open. -/
def sendResultsChunked (c : Chunking ρ τ) (results : List ρ) (transactions : List τ)
    (generation : ℕ) (admission : Option ℕ) : List (ResultMessage ρ τ) :=
  let ranges := c.chunkRanges results transactions
  if ranges.length ≤ 1 then [⟨results, transactions, generation, admission⟩]
  else drain generation admission ranges results transactions

/-- Nonempty ranges, each starting where the one before it ends. -/
def Tiles : ℕ → ℕ → List ChunkRange → Prop
  | first, last, [] => first = last
  | first, last, range :: ranges =>
    range.start = first ∧ first < range.stop ∧ Tiles range.stop last ranges

/-- The range retains what its results do, and is within both caps or holds one
transaction. -/
structure Fits (c : Chunking ρ τ) (batch : List (ρ × τ)) (range : ChunkRange) : Prop where
  bytes : range.bytes = (((batch.take range.stop).drop range.start).map
    fun entry => c.retainedBytesOf entry.1 entry.2).sum
  rows : range.rows = (((batch.take range.stop).drop range.start).map
    fun entry => c.accountKeys entry.2).sum
  caps : range.bytes ≤ c.byteCap ∧ range.rows ≤ c.rowCap ∨ range.stop ≤ range.start + 1

variable {c : Chunking ρ τ} {batch rest : List (ρ × τ)} {index : ℕ}

/-- The next result joins the open chunk, which is empty or within the caps with it. -/
theorem Fits.snoc {start bytes rows : ℕ} {entry : ρ × τ}
    (h : c.Fits batch ⟨start, index, bytes, rows⟩)
    (hstart : start ≤ index) (hnext : batch[index]? = some entry)
    (hcaps : start < index → bytes + c.retainedBytesOf entry.1 entry.2 ≤ c.byteCap ∧
      rows + c.accountKeys entry.2 ≤ c.rowCap) :
    c.Fits batch ⟨start, index + 1, bytes + c.retainedBytesOf entry.1 entry.2,
      rows + c.accountKeys entry.2⟩ := by
  have hlength : (batch.take index).length = index := by
    rw [List.length_take, Nat.min_eq_left (List.getElem?_eq_some_iff.mp hnext).1.le]
  have hslice : (batch.take (index + 1)).drop start = (batch.take index).drop start ++ [entry] := by
    rw [List.take_add_one, hnext, List.drop_append_of_le_length (hstart.trans hlength.ge)]
    rfl
  refine ⟨?_, ?_, ?_⟩
  · simpa [hslice] using h.bytes
  · simpa [hslice] using h.rows
  · rcases hstart.eq_or_lt with heq | hlt
    · exact .inr (Nat.succ_le_succ heq.ge)
    · exact .inl (hcaps hlt)

/-- The walk from an open chunk: its ranges tile what is left and fit. -/
theorem rangesFrom_spec (chunk : ChunkRange) (hrest : batch.drop index = rest)
    (hindex : index ≤ batch.length) (hstart : chunk.start ≤ index)
    (h : c.Fits batch { chunk with stop := index }) :
    Tiles chunk.start batch.length (c.rangesFrom index chunk rest) ∧
      ∀ range ∈ c.rangesFrom index chunk rest, c.Fits batch range := by
  induction rest generalizing index chunk with
  | nil =>
    obtain rfl : index = batch.length := hindex.antisymm (List.drop_eq_nil_iff.mp hrest)
    unfold rangesFrom
    split
    · next hlt => exact ⟨⟨rfl, hlt, rfl⟩, by simpa using h⟩
    · next hle => exact ⟨hstart.antisymm (Nat.not_lt.mp hle), nofun⟩
  | cons entry rest ih =>
    have hnext : batch[index]? = some entry := by
      rw [← List.head?_drop, hrest, List.head?_cons]
    have hlt : index < batch.length := (List.getElem?_eq_some_iff.mp hnext).1
    have hdrop : batch.drop (index + 1) = rest := by
      rw [← List.tail_drop, hrest, List.tail_cons]
    unfold rangesFrom
    dsimp only
    split
    · next hclose =>
      have hempty : c.Fits batch ⟨index, index, 0, 0⟩ := by
        refine ⟨?_, ?_, .inr (Nat.le_succ index)⟩ <;>
          rw [List.drop_eq_nil_of_le (List.length_take_le _ _)] <;> rfl
      have hfirst := hempty.snoc le_rfl hnext fun hlt => absurd hlt (lt_irrefl index)
      simp only [Nat.zero_add] at hfirst
      obtain ⟨htiles, hranges⟩ := ih ⟨index, index, _, _⟩ hdrop hlt (Nat.le_succ index) hfirst
      exact ⟨⟨rfl, hclose.1, htiles⟩, List.forall_mem_cons.mpr ⟨h, hranges⟩⟩
    · next hkeep =>
      refine ih { chunk with
        bytes := chunk.bytes + c.retainedBytesOf entry.1 entry.2
        rows := chunk.rows + c.accountKeys entry.2 } hdrop hlt (hstart.trans (Nat.le_succ index))
        (h.snoc hstart hnext fun hopen => ?_)
      rw [not_and, not_or, Nat.not_lt, Nat.not_lt] at hkeep
      exact hkeep hopen

/-- The messages carry exactly the batch, under its generation, and only the last is tagged. -/
structure Delivers (results : List ρ) (transactions : List τ) (generation : ℕ)
    (admission : Option ℕ) (messages : List (ResultMessage ρ τ)) : Prop where
  results : messages.flatMap (·.results) = results
  transactions : messages.flatMap (·.transactions) = transactions
  generation : ∀ message ∈ messages, message.generation = generation
  admission : ∃ front last, messages = front ++ [last] ∧ last.admission = admission ∧
    ∀ message ∈ front, message.admission = none

variable {results : List ρ} {transactions : List τ} {generation : ℕ} {admission : Option ℕ}

theorem Delivers.single : Delivers results transactions generation admission
    [⟨results, transactions, generation, admission⟩] :=
  ⟨by simp, by simp, by simp, [], _, rfl, rfl, nofun⟩

/-- Draining by ranges that tile both lists. -/
theorem drain_delivers {range : ChunkRange} {ranges : List ChunkRange} {first last : ℕ}
    (h : Tiles first last (range :: ranges)) (hresults : results.length = last - first)
    (htransactions : transactions.length = last - first) :
    Delivers results transactions generation admission
      (drain generation admission (range :: ranges) results transactions) := by
  induction ranges generalizing range first results transactions with
  | nil =>
    obtain ⟨rfl, -, rfl⟩ := h
    unfold drain drain
    dsimp only
    rw [List.take_of_length_le hresults.le, List.take_of_length_le htransactions.le]
    exact .single
  | cons next ranges ih =>
    obtain ⟨rfl, hlt, hrest⟩ := h
    have hleft : last - range.start - (range.stop - range.start) = last - range.stop :=
      Nat.sub_sub_sub_cancel_right hlt.le
    obtain ⟨hr, ht, hg, front, tagged, heq, hlast, hfront⟩ := ih hrest
      (by rw [List.length_drop, hresults, hleft]) (by rw [List.length_drop, htransactions, hleft])
    unfold drain
    refine ⟨?_, ?_, List.forall_mem_cons.mpr ⟨rfl, hg⟩, _ :: front, tagged,
      congrArg (List.cons _) heq, hlast, List.forall_mem_cons.mpr ⟨rfl, hfront⟩⟩
    · rw [List.flatMap_cons, hr, List.take_append_drop]
    · rw [List.flatMap_cons, ht, List.take_append_drop]

/-- The ranges of a batch cover it once and in order, and fit. -/
theorem chunkRanges_spec (c : Chunking ρ τ) (hlength : results.length = transactions.length) :
    Tiles 0 results.length (c.chunkRanges results transactions) ∧
      ∀ range ∈ c.chunkRanges results transactions, c.Fits (results.zip transactions) range := by
  have hzip : (results.zip transactions).length = results.length := by
    rw [List.length_zip, ← hlength, Nat.min_self]
  have hranges : c.chunkRanges results transactions =
      c.rangesFrom 0 ⟨0, 0, 0, 0⟩ (results.zip transactions) := if_neg (not_not.mpr hlength)
  have hempty : c.Fits (results.zip transactions) ⟨0, 0, 0, 0⟩ := ⟨rfl, rfl, .inr (Nat.zero_le 1)⟩
  rw [hranges, ← hzip]
  exact rangesFrom_spec ⟨0, 0, 0, 0⟩ List.drop_zero (Nat.zero_le _) le_rfl hempty

/-- The messages deliver the batch. -/
theorem sendResultsChunked_delivers (hlength : results.length = transactions.length) :
    Delivers results transactions generation admission
      (c.sendResultsChunked results transactions generation admission) := by
  have htiles := (c.chunkRanges_spec hlength).1
  unfold sendResultsChunked
  dsimp only
  split
  · exact .single
  · next hmany =>
    generalize c.chunkRanges results transactions = ranges at htiles hmany
    cases ranges with
    | nil => exact absurd (Nat.zero_le 1) hmany
    | cons range ranges => exact drain_delivers htiles rfl hlength.symm

/-- The ranges cover a batch once and in order, within both caps or of one transaction, and
deliver it whole. -/
theorem result_chunks_lossless (c : Chunking ρ τ) (hlength : results.length = transactions.length)
    (generation : ℕ) (admission : Option ℕ) :
    Tiles 0 results.length (c.chunkRanges results transactions) ∧
      (∀ range ∈ c.chunkRanges results transactions, c.Fits (results.zip transactions) range) ∧
      Delivers results transactions generation admission
        (c.sendResultsChunked results transactions generation admission) := by
  obtain ⟨htiles, hfits⟩ := c.chunkRanges_spec hlength
  exact ⟨htiles, hfits, sendResultsChunked_delivers hlength⟩

/-- The middle one of three results is past the cap and travels alone. -/
theorem result_chunks_lossless_oversized :
    ∃ c : Chunking ℕ ℕ, c.chunkRanges [3, 7, 1] [1, 1, 1] =
        [⟨0, 1, 3, 1⟩, ⟨1, 2, 7, 1⟩, ⟨2, 3, 1, 1⟩] ∧
      Delivers [3, 7, 1] [1, 1, 1] 5 (some 2)
        (c.sendResultsChunked [3, 7, 1] [1, 1, 1] 5 (some 2)) :=
  ⟨⟨fun bytes _ => bytes, id, 4, 9⟩, by decide,
    (@result_chunks_lossless _ _ [3, 7, 1] [1, 1, 1] _ rfl 5 (some 2)).2.2⟩

end Chunking

end PrivateChannels.Core
