import Eider.Source.Sequence

/-!
The prefix cache of Dory (`infer/src/dory/prefix.rs`, lines 3 to 226) and the parts of
a sequence that it reads and writes (`dory/mod.rs`, lines 385 to 422 and 665 to 784).

A row is the key and the value of one position in one attention layer; layers are
numbered as `schedule` runs them. The backbone is a parameter: at a position it turns
the token and the rows that attention reads there (`native/dory.cu`, line 82) into
the new row of every layer. A chunk is computed as its tokens one after the other.
Evicted buffers that `retain` uses again are written in full, so they are left out.
-/
namespace Eider.Source.Dory

/-- The attention layers of a `DoryModel`: the window of each, zero for full
attention, the bytes of one row, and the backbone. -/
structure DoryModel (R : Type) where
  windows : List Nat
  rowBytes : Nat
  vocabSize : Nat
  maxPositionEmbeddings : Nat
  zero : R
  backbone : Nat → Nat → List (List R) → Nat → R

structure DorySequence (R : Type) where
  rows : Nat → Nat → R
  capacity : Nat
  position : Nat
  valid : Bool

/-- What becomes of work on the device: it is done, it fails before anything is
enqueued, or it fails with some rows written. -/
inductive DeviceRun (R : Type) where
  | done
  | refused (e : CudaError)
  | broken (e : CudaError) (rows : Nat → Nat → R)

def invalid (detail : String) : CudaError := .format "Dory" detail

section
variable {R : Type} (model : DoryModel R)

/-- The first position that attention reads at a position. -/
def readStart (window position : Nat) : Nat := if window = 0 then 0 else position + 1 - window

/-- The earlier rows that attention reads at a position. -/
def visible (window position : Nat) (row : Nat → R) : List R :=
  (List.range' (readStart window position) (position - readStart window position)).map row

/-- The rows behind one more token. -/
def append (rows : Nat → Nat → R) (position token : Nat) : Nat → Nat → R := fun layer p =>
  if p = position then
    model.backbone position token
      (model.windows.mapIdx fun l window => visible window position (rows l)) layer
  else rows layer p

def forward (rows : Nat → Nat → R) (position : Nat) : List Nat → Nat → Nat → R
  | [] => rows
  | token :: rest => forward (append model rows position token) (position + 1) rest

def newSequence (capacity : Nat) : Except CudaError (DorySequence R) :=
  if capacity = 0 ∨ model.maxPositionEmbeddings < capacity then
    .error (invalid "sequence exceeds checkpoint context")
  else .ok ⟨fun _ _ => model.zero, capacity, 0, true⟩

def DorySequence.reset (s : DorySequence R) : DorySequence R :=
  { s with position := 0, valid := true }

def check (s : DorySequence R) (tokens : List Nat) : Bool :=
  s.valid && !tokens.isEmpty && tokens.all (fun t => decide (t < model.vocabSize)) &&
    decide (s.position + tokens.length ≤ s.capacity)

/-- `prefill_hidden`, and `prefill` and `decode` as far as the rows go. -/
def prefillHidden (run : DeviceRun R) (s : DorySequence R) (tokens : List Nat) :
    Except CudaError Unit × DorySequence R :=
  if !check model s tokens then
    (.error (invalid "invalid sequence, token, or context capacity"), s)
  else
    match run with
    | .refused e => (.error e, s)
    | .broken e rows => (.error e, { s with rows := rows, valid := false })
    | .done => (.ok (), { s with
        rows := forward model s.rows s.position tokens
        position := s.position + tokens.length
        valid := true })

end

/-! ## The cache -/

structure RetainedLayer (R : Type) where
  start : Nat
  cache : List R

structure Entry (R : Type) where
  tokens : List Nat
  caches : List (RetainedLayer R)
  bytes : Nat
  minPosition : Nat
  used : Nat

structure DoryPrefixCache (R : Type) where
  budget : Nat
  bytes : Nat
  clock : Nat
  entries : List (Entry R)

section
variable {R : Type} (model : DoryModel R)

def DoryPrefixCache.new (budget : Nat) : DoryPrefixCache R := ⟨budget, 0, 0, []⟩

def DoryPrefixCache.enabled (c : DoryPrefixCache R) : Bool := c.budget != 0

/-- The number of leading tokens that two lists share. -/
def commonPrefix : List Nat → List Nat → Nat
  | a :: s, b :: t => if a = b then commonPrefix s t + 1 else 0
  | _, _ => 0

def Entry.matchedPrefix (e : Entry R) (tokens : List Nat) : Nat :=
  let common := min (commonPrefix e.tokens tokens) (tokens.length - 1)
  if e.minPosition ≤ common then common else 0

/-- What an entry offers for the tokens. -/
def Entry.matched (e : Entry R) (tokens : List Nat) (exact : Bool) : Nat :=
  if exact then (if e.tokens = tokens then tokens.length else 0) else e.matchedPrefix tokens

/-- The entry that `max_by_key` selects, the last of the longest matches, with its
place in the list. -/
def select (tokens : List Nat) (exact : Bool) :
    Nat → List (Entry R) → Option (Nat × Entry R) → Option (Nat × Entry R)
  | _, [], best => best
  | index, e :: rest, best =>
    select tokens exact (index + 1) rest <|
      if e.matched tokens exact = 0 then best
      else
        match best with
        | none => some (index, e)
        | some (i, b) =>
          if b.matched tokens exact ≤ e.matched tokens exact then some (index, e) else some (i, b)

/-- The rows of a sequence behind the copies of a snapshot up to `matched`. -/
def restoreRows (e : Entry R) (matched : Nat) (rows : Nat → Nat → R) : Nat → Nat → R :=
  fun layer p =>
    match e.caches[layer]? with
    | none => rows layer p
    | some retained =>
      if retained.start ≤ p ∧ p < matched then retained.cache.getD (p - retained.start) (rows layer p)
      else rows layer p

/-- `u64::saturating_add(1)`. -/
def tickClock (clock : Nat) : Nat := min (clock + 1) (2 ^ 64 - 1)

def restoreMatch (run : DeviceRun R) (c : DoryPrefixCache R) (s : DorySequence R)
    (tokens : List Nat) (exact : Bool) :
    Except CudaError Nat × DoryPrefixCache R × DorySequence R :=
  match select tokens exact 0 c.entries none with
  | none => (.ok 0, c, s)
  | some (index, e) =>
    let matched := e.matched tokens exact
    if s.position ≠ 0 ∨ s.capacity ≤ matched ∨ e.caches.length ≠ model.windows.length then
      (.error (invalid "invalid prefix destination"), c, s)
    else
      match run with
      | .refused err => (.error err, c, { s with valid := false })
      | .broken err rows => (.error err, c, { s with rows := rows, valid := false })
      | .done =>
        let clock := tickClock c.clock
        (.ok matched,
          { c with clock := clock, entries := c.entries.set index { e with used := clock } },
          { s with rows := restoreRows e matched s.rows, position := matched, valid := true })

/-- The start of the snapshot of a layer. -/
def retainStart (position window : Nat) : Nat := if window = 0 then 0 else position - window * 2

/-- The least match that a snapshot can serve. -/
def minPosition (windows : List Nat) (position : Nat) : Nat :=
  windows.foldl (fun least window =>
    let start := retainStart position window
    if start ≠ 0 then max least (start + window) else least) 0

/-- The entry that was used least recently, the first of several. -/
def leastUsed : Nat → List (Entry R) → Option (Nat × Entry R) → Option (Nat × Entry R)
  | _, [], best => best
  | index, e :: rest, best =>
    leastUsed (index + 1) rest <|
      match best with
      | none => some (index, e)
      | some (i, b) => if e.used < b.used then some (index, e) else some (i, b)

def swapRemove (entries : List (Entry R)) (index : Nat) : List (Entry R) :=
  match entries.getLast? with
  | none => []
  | some last => (entries.set index last).dropLast

/-- The eviction loop of `retain`, at most once for each entry. -/
def evict (needed : Nat) : Nat → DoryPrefixCache R → DoryPrefixCache R
  | 0, c => c
  | fuel + 1, c =>
    if c.budget < c.bytes + needed then
      match leastUsed 0 c.entries none with
      | none => c
      | some (index, e) =>
        evict needed fuel { c with
          entries := swapRemove c.entries index
          bytes := c.bytes - e.bytes }
    else c

def snapshot (s : DorySequence R) : List (RetainedLayer R) :=
  model.windows.mapIdx fun layer window =>
    let start := retainStart s.position window
    ⟨start, (List.range' start (s.position - start)).map (s.rows layer)⟩

/-- What becomes of the device in `retain`: the first synchronization, and the copies
with the second. -/
structure RetainRun where
  synchronize : Except CudaError Unit
  copies : Except CudaError Unit

/-- `DoryPrefixCache::retain`. -/
def retain (run : RetainRun) (c : DoryPrefixCache R) (s : DorySequence R) (tokens : List Nat) :
    Except CudaError Unit × DoryPrefixCache R :=
  if !c.enabled || !s.valid || s.position == 0 || tokens.length != s.position ||
      c.entries.any (fun e => e.tokens == tokens) then (.ok (), c)
  else
    let bytes := (model.windows.map fun window =>
      (s.position - retainStart s.position window) * model.rowBytes).sum
    if c.budget < bytes then (.ok (), c)
    else
      match run.synchronize with
      | .error e => (.error e, c)
      | .ok () =>
        let c := evict bytes c.entries.length c
        match run.copies with
        | .error e => (.error e, c)
        | .ok () =>
          let clock := tickClock c.clock
          (.ok (), { c with
            clock := clock
            bytes := c.bytes + bytes
            entries := c.entries ++
              [⟨tokens, snapshot model s, bytes, minPosition model.windows s.position, clock⟩] })

end

end Eider.Source.Dory
