import Mathlib.Data.Nat.Digits.Lemmas
import Mathlib.Data.List.Basic

/-!
# Reading a file of bytes

Rust's `Read`, `Seek` and sized allocation over one open file. A computation ends
with a value, with an error of its own, or in a panic; the reader survives either
fault, with the sizes of all buffers that were requested on the way.

`Consumes m bytes a` says that `m` returns `a` from exactly `bytes` wherever they
stand in the file, `Fails m bytes e` that it refuses them, and `Calm allowed m` that
`m` never panics and requests only buffers of an allowed size. `Accepts m P` relates what `m`
returns to the bytes it has read. All are closed under sequencing, and all but `Fails` under
loops.
-/
namespace Eider.Lib.ByteReader
open List

/-- A file that is open for reading. The position may lie behind its end. -/
structure Reader where
  file : List UInt8
  position : Nat
  requests : List Nat
deriving DecidableEq, Repr

/-- An error that is returned, or a panic. -/
inductive Fault (ε : Type) where
  | failed (error : ε)
  | panicked (message : String)
deriving DecidableEq, Repr

abbrev Reading (ε : Type) := EStateM (Fault ε) Reader

section
variable {ε α β : Type}

def fail (e : ε) : Reading ε α := throw (.failed e)

/-- Goes on only if the condition holds. -/
def ensure (condition : Bool) (e : ε) : Reading ε Unit :=
  if condition then pure () else fail e

/-- Goes on with a value that is present. -/
def okOr (value : Option α) (e : ε) : Reading ε α :=
  match value with
  | some a => pure a
  | none => fail e

/-- `read_exact`. An empty buffer is always filled. -/
def readExact (n : Nat) (eof : ε) : Reading ε (List UInt8) := fun r =>
  if n = 0 then .ok [] r
  else if r.position + n ≤ r.file.length then
    .ok ((r.file.drop r.position).take n) { r with position := r.position + n }
  else .error (.failed eof) { r with position := max r.position r.file.length }

/-- `seek(SeekFrom::Current(n))`, which may leave the file but not the range of `i64`. -/
def seekForward (n : Nat) (outside : ε) : Reading ε Unit := fun r =>
  if r.position + n < 2 ^ 63 then .ok () { r with position := r.position + n }
  else .error (.failed outside) r

/-- Requests a buffer of the size, at most `isize::MAX`. -/
def request (bytes : Nat) : Reading ε Unit := fun r =>
  if bytes < 2 ^ 63 then .ok () { r with requests := bytes :: r.requests }
  else .error (.panicked "capacity overflow") r

def streamPosition : Reading ε Nat := fun r => .ok r.position r

/-- The length of the file. -/
def fileLength : Reading ε Nat := fun r => .ok r.file.length r

/-- Collects the results of `n` runs. -/
def times : Nat → Reading ε α → Reading ε (List α)
  | 0, _ => pure []
  | n + 1, m => do
    let a ← m
    let rest ← times n m
    pure (a :: rest)

/-- `n` runs with an accumulator. -/
def foldTimes : Nat → (β → Reading ε β) → β → Reading ε β
  | 0, _, b => pure b
  | n + 1, f, b => do
    let b ← f b
    foldTimes n f b

/-- The number with the little-endian bytes. -/
def ofLeBytes (bytes : List UInt8) : Nat := Nat.ofDigits 256 (bytes.map UInt8.toNat)

/-- The `width` little-endian bytes of a number. -/
def toLeBytes : Nat → Nat → List UInt8
  | 0, _ => []
  | width + 1, n => UInt8.ofNat n :: toLeBytes width (n / 256)

/-- Reads a little-endian number. -/
def readLe (width : Nat) (eof : ε) : Reading ε Nat := ofLeBytes <$> readExact width eof

@[simp]
theorem length_toLeBytes (width n : Nat) : (toLeBytes width n).length = width := by
  induction width generalizing n with
  | zero => rfl
  | succ width ih => rw [toLeBytes, length_cons, ih]

theorem ofLeBytes_toLeBytes {width n : Nat} (h : n < 256 ^ width) :
    ofLeBytes (toLeBytes width n) = n := by
  induction width generalizing n with
  | zero =>
    have hn : n = 0 := by omega
    subst hn
    rfl
  | succ width ih =>
    have hrest : n / 256 < 256 ^ width := by
      rw [Nat.pow_succ] at h
      omega
    rw [toLeBytes, ofLeBytes, map_cons, Nat.ofDigits_cons, ← ofLeBytes, ih hrest,
      UInt8.toNat_ofNat']
    simp only [Nat.reducePow]
    omega

end

/-! ## Exact consumption -/

variable {r s : Reader}

section
variable {ε α β γ : Type}

/-- The reader stands inside a file of a possible length. -/
structure Inside (r : Reader) : Prop where
  position : r.position ≤ r.file.length
  length : r.file.length < 2 ^ 63

/-- `m` turns the bytes in front of the reader into `a` and stops behind them. -/
def Consumes (m : Reading ε α) (bytes : List UInt8) (a : α) : Prop :=
  ∀ r : Reader, Inside r → bytes <+: r.file.drop r.position →
    ∃ requests, m r = .ok a ⟨r.file, r.position + bytes.length, requests⟩

variable {m : Reading ε α} {f : α → Reading ε β} {bytes more : List UInt8} {a : α} {b : β}
variable {encode : γ → List UInt8}

theorem prefix_within (hinside : Inside r) (h : bytes <+: r.file.drop r.position) :
    r.position + bytes.length ≤ r.file.length := by
  have hlength := h.length_le
  rw [length_drop] at hlength
  have := hinside.position
  omega

theorem prefix_append_drop (h : bytes ++ more <+: r.file.drop r.position) :
    bytes <+: r.file.drop r.position ∧ more <+: r.file.drop (r.position + bytes.length) := by
  obtain ⟨after, hafter⟩ := h
  rw [append_assoc] at hafter
  refine ⟨⟨more ++ after, hafter⟩, ?_⟩
  rw [← drop_drop, ← hafter, drop_left]
  exact prefix_append _ _

/-- A sequence goes on behind the end of its first part. -/
theorem bind_run_ok (h : m r = .ok a s) : (m >>= f) r = f a s := by
  change EStateM.bind m f r = _
  rw [EStateM.bind, h]

theorem Consumes.pure (a : α) : Consumes (Pure.pure a : Reading ε α) [] a :=
  fun r _ _ => ⟨r.requests, rfl⟩

theorem Consumes.bind (hm : Consumes m bytes a) (hf : Consumes (f a) more b) :
    Consumes (m >>= f) (bytes ++ more) b := by
  intro r hinside hprefix
  obtain ⟨hfirst, hsecond⟩ := prefix_append_drop hprefix
  obtain ⟨requests, hrun⟩ := hm r hinside hfirst
  obtain ⟨requests', hrun'⟩ := hf ⟨r.file, r.position + bytes.length, requests⟩
    ⟨prefix_within hinside hfirst, hinside.length⟩ hsecond
  refine ⟨requests', ?_⟩
  rw [bind_run_ok hrun, length_append, ← Nat.add_assoc]
  exact hrun'

theorem Consumes.map {g : α → β} (hm : Consumes m bytes a) : Consumes (g <$> m) bytes (g a) := by
  intro r hinside hprefix
  obtain ⟨requests, hrun⟩ := hm r hinside hprefix
  refine ⟨requests, ?_⟩
  change EStateM.map g m r = _
  rw [EStateM.map, hrun]

theorem Consumes.bind_silent (hm : Consumes m [] a) (hf : Consumes (f a) bytes b) :
    Consumes (m >>= f) bytes b := by
  simpa using hm.bind hf

theorem Consumes.bind_last (hm : Consumes m bytes a) (hf : Consumes (f a) [] b) :
    Consumes (m >>= f) bytes b := by
  simpa using hm.bind hf

theorem consumes_of_length (h : bytes.length < 2 ^ 63 → Consumes m bytes a) :
    Consumes m bytes a := by
  intro r hinside hprefix
  have hwithin := prefix_within hinside hprefix
  have hlength := hinside.length
  exact h (by omega) r hinside hprefix

theorem consumes_ensure {condition : Bool} (e : ε) (h : condition = true) :
    Consumes (ensure condition e) [] () := by
  rw [ensure, if_pos h]
  exact .pure ()

theorem consumes_readExact (bytes : List UInt8) (eof : ε) :
    Consumes (readExact bytes.length eof) bytes bytes := by
  intro r hinside hprefix
  refine ⟨r.requests, ?_⟩
  rw [readExact]
  split
  · rename_i hempty
    rw [length_eq_zero_iff.mp hempty]
    rfl
  · rw [if_pos (prefix_within hinside hprefix), prefix_iff_eq_take.mp hprefix |>.symm]

theorem consumes_readLe (width : Nat) {n : Nat} (eof : ε) (h : n < 256 ^ width) :
    Consumes (readLe width eof) (toLeBytes width n) n := by
  have hread := consumes_readExact (toLeBytes width n) eof
  rw [length_toLeBytes] at hread
  have hmap : Consumes (ofLeBytes <$> readExact width eof) (toLeBytes width n)
      (ofLeBytes (toLeBytes width n)) := hread.map
  rw [ofLeBytes_toLeBytes h] at hmap
  exact hmap

theorem consumes_seekForward (bytes : List UInt8) (outside : ε) :
    Consumes (seekForward bytes.length outside) bytes () := by
  intro r hinside hprefix
  refine ⟨r.requests, ?_⟩
  have hwithin := prefix_within hinside hprefix
  have hlength := hinside.length
  rw [seekForward, if_pos (by omega)]

theorem consumes_request {size : Nat} (h : size < 2 ^ 63) :
    Consumes (request size : Reading ε Unit) [] () := by
  intro r _ _
  refine ⟨size :: r.requests, ?_⟩
  rw [request, if_pos h]
  rfl

/-- A loop that collects consumes the encodings one behind the other. -/
theorem consumes_times {m : Reading ε α} {decode : γ → α}
    (items : List γ) (hm : ∀ item ∈ items, Consumes m (encode item) (decode item)) :
    Consumes (times items.length m) (items.flatMap encode) (items.map decode) := by
  induction items with
  | nil => exact .pure []
  | cons item rest ih =>
    have hrest := ih fun other hother => hm other (mem_cons_of_mem _ hother)
    rw [flatMap_cons, map_cons, length_cons, times]
    refine (hm item mem_cons_self).bind ?_
    exact hrest.bind_last (.pure _)

theorem consumes_foldTimes {f : β → Reading ε β} {next : β → γ → β} (items : List γ) (b : β)
    (hf : ∀ b, ∀ item ∈ items, Consumes (f b) (encode item) (next b item)) :
    Consumes (foldTimes items.length f b) (items.flatMap encode) (items.foldl next b) := by
  induction items generalizing b with
  | nil => exact .pure b
  | cons item rest ih =>
    rw [flatMap_cons, foldl_cons, length_cons, foldTimes]
    exact (hf b item mem_cons_self).bind
      (ih _ fun b other hother => hf b other (mem_cons_of_mem _ hother))

end

/-! ## Refusal -/

section
variable {ε α β : Type} {m : Reading ε α} {f : α → Reading ε β} {bytes more : List UInt8} {a : α}
  {e : ε}

/-- `m` returns the error in front of the bytes. -/
def Fails (m : Reading ε α) (bytes : List UInt8) (e : ε) : Prop :=
  ∀ r : Reader, Inside r → bytes <+: r.file.drop r.position → ∃ s, m r = .error (.failed e) s

theorem fails_fail (e : ε) (bytes : List UInt8) : Fails (fail e : Reading ε α) bytes e :=
  fun r _ _ => ⟨r, rfl⟩

theorem fails_ensure {condition : Bool} (e : ε) (bytes : List UInt8) (h : condition = false) :
    Fails (ensure condition e) bytes e := by
  rw [ensure, if_neg (by simp [h])]
  exact fails_fail e bytes

theorem Fails.bind (hm : Fails m bytes e) : Fails (m >>= f) bytes e := by
  intro r hinside hprefix
  obtain ⟨s, hrun⟩ := hm r hinside hprefix
  refine ⟨s, ?_⟩
  change EStateM.bind m f r = _
  rw [EStateM.bind, hrun]

theorem Fails.map {g : α → β} (hm : Fails m bytes e) : Fails (g <$> m) bytes e := by
  rw [map_eq_pure_bind]
  exact hm.bind

theorem Fails.extend (hm : Fails m bytes e) (h : bytes <+: more) : Fails m more e :=
  fun r hinside hmore => hm r hinside (h.trans hmore)

theorem Consumes.bind_fails (hm : Consumes m bytes a) (hf : Fails (f a) more e) :
    Fails (m >>= f) (bytes ++ more) e := by
  intro r hinside hprefix
  obtain ⟨hfirst, hsecond⟩ := prefix_append_drop hprefix
  obtain ⟨requests, hrun⟩ := hm r hinside hfirst
  rw [bind_run_ok hrun]
  exact hf _ ⟨prefix_within hinside hfirst, hinside.length⟩ hsecond

end

/-! ## Freedom from panics -/

section
variable {ε α β : Type} {allowed : Nat → Prop} {m : Reading ε α} {f : α → Reading ε β}

/-- The state behind a run of `m` from `r`. -/
def rest (m : Reading ε α) (r : Reader) : Reader :=
  match m r with
  | .ok _ s => s
  | .error _ s => s

/-- From `r`, `m` does not panic, leaves the file alone and requests only buffers of
allowed size. -/
structure CalmAt (allowed : Nat → Prop) (m : Reading ε α) (r : Reader) : Prop where
  quiet : ∀ s message, m r ≠ .error (.panicked message) s
  file : (rest m r).file = r.file
  requests : ∀ size ∈ (rest m r).requests, allowed size ∨ size ∈ r.requests

def Calm (allowed : Nat → Prop) (m : Reading ε α) : Prop := ∀ r, CalmAt allowed m r

theorem rest_ok {a : α} (h : m r = .ok a s) : rest m r = s := by
  rw [rest, h]

theorem rest_error {e : Fault ε} (h : m r = .error e s) : rest m r = s := by
  rw [rest, h]

/-- A computation that hands its reader on, but for the position. -/
theorem calm_of_same (hquiet : ∀ r s message, m r ≠ .error (.panicked message) s)
    (hfile : ∀ r, (rest m r).file = r.file) (hrequests : ∀ r, (rest m r).requests = r.requests) :
    Calm allowed m := fun r =>
  { quiet := hquiet r
    file := hfile r
    requests := fun size hsize => by
      rw [hrequests r] at hsize
      exact .inr hsize }

theorem Calm.pure (a : α) : Calm allowed (Pure.pure a : Reading ε α) :=
  calm_of_same (fun _ _ _ h => by cases h) (fun _ => rfl) fun _ => rfl

theorem calm_fail (e : ε) : Calm allowed (fail e : Reading ε α) :=
  calm_of_same (fun _ _ _ h => by cases h) (fun _ => rfl) fun _ => rfl

/-- What a sequence does: it fails in its first part or goes on behind it. -/
theorem bind_cases (m : Reading ε α) (f : α → Reading ε β) (r : Reader) :
    (∃ e s, m r = .error e s ∧ (m >>= f) r = .error e s) ∨
      ∃ a s, m r = .ok a s ∧ (m >>= f) r = f a s := by
  cases h : m r with
  | error e s =>
    refine .inl ⟨e, s, rfl, ?_⟩
    change EStateM.bind m f r = _
    rw [EStateM.bind, h]
  | ok a s => exact .inr ⟨a, s, rfl, bind_run_ok h⟩

theorem bind_ok_inv {b : β} (h : (m >>= f) r = .ok b s) :
    ∃ a t, m r = .ok a t ∧ f a t = .ok b s := by
  rcases bind_cases m f r with ⟨e, s', hfirst, hall⟩ | ⟨a, t, hfirst, hall⟩
  · rw [hall] at h
    cases h
  · rw [hall] at h
    exact ⟨a, t, hfirst, h⟩

theorem map_ok_inv {g : α → β} {b : β} (h : (g <$> m) r = .ok b s) :
    ∃ a, m r = .ok a s ∧ b = g a := by
  rw [map_eq_pure_bind] at h
  obtain ⟨a, t, hfirst, hpure⟩ := bind_ok_inv h
  cases hpure
  exact ⟨a, hfirst, rfl⟩

theorem ensure_ok_inv {condition : Bool} {e : ε} {u : Unit}
    (h : ensure condition e r = .ok u s) : condition = true ∧ s = r := by
  rw [ensure] at h
  split at h
  · rename_i hcondition
    cases h
    exact ⟨hcondition, rfl⟩
  · cases h

theorem okOr_ok_inv {value : Option α} {e : ε} {a : α}
    (h : okOr value e r = .ok a s) : value = some a ∧ s = r := by
  cases value with
  | none => cases h
  | some b =>
    cases h
    exact ⟨rfl, rfl⟩

theorem request_ok_inv {size : Nat} {u : Unit} (h : (request size : Reading ε Unit) r = .ok u s) :
    size < 2 ^ 63 ∧ s = { r with requests := size :: r.requests } := by
  rw [request] at h
  split at h
  · rename_i hsize
    cases h
    exact ⟨hsize, rfl⟩
  · cases h

/-- What a filled buffer holds, and that it lies inside the file. -/
theorem readExact_ok_inv {n : Nat} {eof : ε} {bytes : List UInt8}
    (h : readExact n eof r = .ok bytes s) :
    bytes = (r.file.drop r.position).take n ∧ s = { r with position := r.position + n } ∧
      (n = 0 ∨ r.position + n ≤ r.file.length) := by
  rw [readExact] at h
  split at h
  · rename_i hempty
    cases h
    subst hempty
    exact ⟨(take_zero).symm, rfl, .inl rfl⟩
  · split at h
    · rename_i hinside
      cases h
      exact ⟨rfl, rfl, .inr hinside⟩
    · cases h

theorem ofLeBytes_lt (bytes : List UInt8) : ofLeBytes bytes < 256 ^ bytes.length := by
  have hdigits : ∀ d ∈ bytes.map UInt8.toNat, d < 256 := by
    intro d hd
    obtain ⟨byte, -, rfl⟩ := mem_map.mp hd
    exact byte.toNat_lt
  have hlt := Nat.ofDigits_lt_base_pow_length (by decide) hdigits
  rw [length_map] at hlt
  exact hlt

theorem CalmAt.bind (hm : CalmAt allowed m r)
    (hf : ∀ a t, m r = .ok a t → CalmAt allowed (f a) t) : CalmAt allowed (m >>= f) r := by
  rcases bind_cases m f r with ⟨e, s', hfirst, hall⟩ | ⟨a, t, hfirst, hall⟩
  · have hrest : rest (m >>= f) r = rest m r := by rw [rest_error hall, rest_error hfirst]
    constructor
    · intro s message h
      rw [hall] at h
      cases h
      exact hm.quiet _ _ hfirst
    · rw [hrest]
      exact hm.file
    · rw [hrest]
      exact hm.requests
  · have hrest : rest (m >>= f) r = rest (f a) t := by rw [rest, hall, rest]
    have hcalm := hf a t hfirst
    have hfile := hm.file
    have hrequests := hm.requests
    rw [rest_ok hfirst] at hfile hrequests
    constructor
    · intro s message h
      rw [hall] at h
      exact hcalm.quiet _ _ h
    · rw [hrest, hcalm.file, hfile]
    · intro size hsize
      rw [hrest] at hsize
      rcases hcalm.requests size hsize with hallowed | hbefore
      · exact .inl hallowed
      · exact hrequests size hbefore

theorem Calm.bind (hm : Calm allowed m) (hf : ∀ a, Calm allowed (f a)) : Calm allowed (m >>= f) :=
  fun r => (hm r).bind fun a t _ => hf a t

theorem Calm.map {g : α → β} (hm : Calm allowed m) : Calm allowed (g <$> m) := by
  rw [map_eq_pure_bind]
  exact hm.bind fun a => .pure (g a)

theorem calm_ensure (condition : Bool) (e : ε) : Calm allowed (ensure condition e) := by
  rw [ensure]
  split
  · exact .pure ()
  · exact calm_fail e

theorem calm_okOr (value : Option α) (e : ε) : Calm allowed (okOr value e) := by
  cases value with
  | none => exact calm_fail e
  | some a => exact .pure a

theorem calm_readExact (n : Nat) (eof : ε) : Calm allowed (readExact n eof) := by
  apply calm_of_same
  · intro r s message h
    rw [readExact] at h
    split at h
    · cases h
    · split at h
      · cases h
      · cases h
  · intro r
    rw [rest, readExact]
    split
    · split at *
      all_goals grind
    · grind
  · intro r
    rw [rest, readExact]
    grind

theorem calm_readLe (width : Nat) (eof : ε) : Calm allowed (readLe width eof) :=
  (calm_readExact width eof).map

theorem calm_seekForward (n : Nat) (outside : ε) : Calm allowed (seekForward n outside) := by
  apply calm_of_same
  · intro r s message h
    rw [seekForward] at h
    split at h
    · cases h
    · cases h
  · intro r
    rw [rest, seekForward]
    grind
  · intro r
    rw [rest, seekForward]
    grind

theorem calm_streamPosition : Calm allowed (streamPosition : Reading ε Nat) :=
  calm_of_same (fun _ _ _ h => by cases h) (fun _ => rfl) fun _ => rfl

theorem calm_fileLength : Calm allowed (fileLength : Reading ε Nat) :=
  calm_of_same (fun _ _ _ h => by cases h) (fun _ => rfl) fun _ => rfl

theorem calm_request {size : Nat} (hallowed : allowed size) (hsize : size < 2 ^ 63) :
    Calm allowed (request size : Reading ε Unit) := by
  have hrun : ∀ r, (request size : Reading ε Unit) r =
      .ok () { r with requests := size :: r.requests } := by
    intro r
    rw [request, if_pos hsize]
  intro r
  constructor
  · intro s message h
    rw [hrun] at h
    cases h
  · rw [rest_ok (hrun r)]
  · intro other hother
    rw [rest_ok (hrun r)] at hother
    rcases mem_cons.mp hother with rfl | hbefore
    · exact .inl hallowed
    · exact .inr hbefore

theorem calm_times (n : Nat) (hm : Calm allowed m) : Calm allowed (times n m) := by
  induction n with
  | zero => exact .pure []
  | succ n ih => exact hm.bind fun a => ih.bind fun rest => .pure (a :: rest)

theorem calm_foldTimes {f : β → Reading ε β} (n : Nat) (b : β) (hf : ∀ b, Calm allowed (f b)) :
    Calm allowed (foldTimes n f b) := by
  induction n generalizing b with
  | zero => exact .pure b
  | succ n ih => exact (hf b).bind fun b => ih b

end

/-! ## Acceptance -/

section
variable {ε α β : Type} {m : Reading ε α} {f : α → Reading ε β}
  {P : α → List UInt8 → Prop} {R : β → List UInt8 → Prop}

theorem toLeBytes_ofLeBytes (bytes : List UInt8) :
    toLeBytes bytes.length (ofLeBytes bytes) = bytes := by
  induction bytes with
  | nil => rfl
  | cons byte rest ih =>
    have hbyte : byte.toNat < 256 := byte.toNat_lt
    have hdigits : ofLeBytes (byte :: rest) = byte.toNat + 256 * ofLeBytes rest := by
      rw [ofLeBytes, map_cons, Nat.ofDigits_cons, ← ofLeBytes]
    have hdiv : (byte.toNat + 256 * ofLeBytes rest) / 256 = ofLeBytes rest := by omega
    rw [length_cons, toLeBytes, hdigits, hdiv, ih]
    congr 1
    apply UInt8.toNat_inj.mp
    rw [UInt8.toNat_ofNat']
    simp only [Nat.reducePow]
    omega

theorem toLeBytes_inj {width n k : Nat} (hn : n < 256 ^ width) (hk : k < 256 ^ width)
    (h : toLeBytes width n = toLeBytes width k) : n = k := by
  rw [← ofLeBytes_toLeBytes hn, h, ofLeBytes_toLeBytes hk]

/-- What `m` returns is related to the bytes that it has read. -/
def Accepts (m : Reading ε α) (P : α → List UInt8 → Prop) : Prop :=
  ∀ r s a, m r = .ok a s → ∃ bytes, P a bytes ∧ bytes <+: r.file.drop r.position ∧
    s.file = r.file ∧ s.position = r.position + bytes.length

theorem Accepts.mono {P' : α → List UInt8 → Prop} (h : Accepts m P)
    (hP : ∀ a bytes, P a bytes → P' a bytes) : Accepts m P' := by
  intro r s a hrun
  obtain ⟨bytes, hbytes, hrest⟩ := h r s a hrun
  exact ⟨bytes, hP a bytes hbytes, hrest⟩

theorem Accepts.pure {a : α} (h : P a []) : Accepts (Pure.pure a : Reading ε α) P := by
  intro r s b hrun
  cases hrun
  exact ⟨[], h, nil_prefix, rfl, rfl⟩

/-- The rest of a sequence is read behind the bytes of its first part. -/
theorem Accepts.bind (hm : Accepts m P)
    (hf : ∀ a first, P a first → Accepts (f a) fun b second => R b (first ++ second)) :
    Accepts (m >>= f) R := by
  intro r s b hrun
  obtain ⟨a, t, hfirst, hsecond⟩ := bind_ok_inv hrun
  obtain ⟨first, hP, hstart, hfile, hposition⟩ := hm r t a hfirst
  obtain ⟨second, hR, hnext, hfile', hposition'⟩ := hf a first hP t s b hsecond
  refine ⟨first ++ second, hR, ?_, hfile'.trans hfile, ?_⟩
  · rw [hfile, hposition, ← drop_drop] at hnext
    obtain ⟨after, hafter⟩ := hstart
    rw [← hafter, drop_left] at hnext
    rw [← hafter]
    exact (prefix_append_right_inj first).mpr hnext
  · rw [hposition', hposition, length_append, Nat.add_assoc]

theorem Accepts.map {g : α → β} (hm : Accepts m P) (h : ∀ a bytes, P a bytes → R (g a) bytes) :
    Accepts (g <$> m) R := by
  intro r s b hrun
  obtain ⟨a, hfirst, rfl⟩ := map_ok_inv hrun
  obtain ⟨bytes, hP, hrest⟩ := hm r s a hfirst
  exact ⟨bytes, h a bytes hP, hrest⟩

theorem accepts_readExact (n : Nat) (eof : ε) :
    Accepts (readExact n eof) fun a bytes => a = bytes ∧ bytes.length = n := by
  intro r s a hrun
  obtain ⟨rfl, rfl, hinside⟩ := readExact_ok_inv hrun
  have hlength : ((r.file.drop r.position).take n).length = n := by
    rw [length_take, length_drop]
    omega
  exact ⟨_, ⟨rfl, hlength⟩, take_prefix _ _, rfl, by rw [hlength]⟩

theorem accepts_readLe (width : Nat) (eof : ε) :
    Accepts (readLe width eof) fun n bytes => bytes = toLeBytes width n ∧ n < 256 ^ width := by
  refine (accepts_readExact width eof).map ?_
  rintro bytes _ ⟨rfl, rfl⟩
  exact ⟨(toLeBytes_ofLeBytes bytes).symm, ofLeBytes_lt bytes⟩

theorem accepts_okOr (value : Option α) (e : ε) :
    Accepts (okOr value e) fun a bytes => bytes = [] ∧ value = some a := by
  intro r s a hrun
  obtain ⟨hvalue, rfl⟩ := okOr_ok_inv hrun
  exact ⟨[], ⟨rfl, hvalue⟩, nil_prefix, rfl, rfl⟩

theorem accepts_ensure (condition : Bool) (e : ε) :
    Accepts (ensure condition e) fun _ bytes => bytes = [] ∧ condition = true := by
  intro r s a hrun
  obtain ⟨hcondition, rfl⟩ := ensure_ok_inv hrun
  exact ⟨[], ⟨rfl, hcondition⟩, nil_prefix, rfl, rfl⟩

theorem accepts_request (size : Nat) :
    Accepts (request size : Reading ε Unit) fun _ bytes => bytes = [] ∧ size < 2 ^ 63 := by
  intro r s a hrun
  obtain ⟨hsize, rfl⟩ := request_ok_inv hrun
  exact ⟨[], ⟨rfl, hsize⟩, nil_prefix, rfl, rfl⟩

theorem accepts_times {encode : α → List UInt8} (n : Nat)
    (hm : Accepts m fun a bytes => bytes = encode a) :
    Accepts (times n m) fun as bytes => as.length = n ∧ bytes = as.flatMap encode := by
  induction n with
  | zero => exact .pure ⟨rfl, rfl⟩
  | succ n ih =>
    refine hm.bind fun a first hfirst => ih.bind fun as second hsecond => .pure ?_
    rw [length_cons, flatMap_cons, append_nil, hsecond.1, hsecond.2, hfirst]
    exact ⟨rfl, rfl⟩

end

end Eider.Lib.ByteReader
