import CoSimBridge.Delivery.Heap
import CoSimBridge.Delivery.Window
import CoSimBridge.Fault
/-!
Delivery buffers: where inbound messages wait for the step they belong to.

A message carries a timestamp, a key and a value. A synchronized buffer groups messages into
buckets by timestamp; a message stamped up to the window's `next` is ready, a later one is
either refused (`rejectFuture`) or kept aside until a window reaches it (`deferFuture`). Within
a bucket the last value of a key wins and keys keep the order of their first message. Draining
releases the ready buckets up to `now`, oldest first, keeps only the last message of each key,
and moves the kept-aside buckets that the window now reaches into the ready ones. An
unsynchronized buffer keeps a single bucket at time zero and drains it whole.

Each stage is a binary heap of buckets by timestamp together with an index from timestamps to
buckets, used to find the bucket a message joins. The index is kept as a mark on the bucket it
leads to: creating a bucket marks it, releasing a bucket clears the mark of its timestamp, and
moving a bucket into the ready stage takes the mark of its timestamp over.

Every operation also answers what an observer hears: messages received, superseded by a later
one of the same key, discarded, delivered, and the number of buckets held.
-/

namespace CoSimBridge.Delivery

/-- What a buffer does with a message stamped after the window's `next`. -/
inductive Policy where
  | rejectFuture
  | deferFuture
deriving Repr, DecidableEq, Inhabited

/-- The policy's name. -/
def Policy.name : Policy → String
  | .rejectFuture => "reject-future"
  | .deferFuture => "defer-future"

/-- A released message. -/
structure Item (κ ν : Type) where
  ts : Float
  key : κ
  value : ν

/-- The messages of one timestamp: each key once, in the order of its first message, with its
last value. `indexed` says whether the stage's index leads to this bucket. -/
structure Bucket (κ ν : Type) where
  ts : Float
  entries : List (κ × ν)
  indexed : Bool := true

/-- An observation a buffer reports. -/
inductive Report where
  | received
  | superseded
  | discarded
  | delivered (n : Nat)
  | depth (buckets : Nat)
deriving Repr, DecidableEq, Inhabited

section

variable {κ ν : Type} [BEq κ]

/-- Puts a key's value into a list of entries: it replaces the value of a key already there
(answering `true`) or is added at the end. -/
def putEntry (k : κ) (v : ν) : List (κ × ν) → List (κ × ν) × Bool
  | [] => ([(k, v)], false)
  | (k', v') :: rest =>
    if k' == k then ((k, v) :: rest, true)
    else
      let (rest', replaced) := putEntry k v rest
      ((k', v') :: rest', replaced)

/-- The order of buckets in a heap: by timestamp. -/
def Bucket.before (a b : Bucket κ ν) : Bool := decide (a.ts < b.ts)

/-- One stage of a buffer: a heap of buckets. -/
structure Stage (κ ν : Type) where
  heap : Array (Bucket κ ν) := #[]

namespace Stage

/-- The number of buckets. -/
def size (s : Stage κ ν) : Nat := s.heap.size

/-- The position of the bucket the index leads to for timestamp `ts`. -/
def find? (s : Stage κ ν) (ts : Float) : Option Nat :=
  s.heap.findIdx? fun b => b.indexed && b.ts == ts

/-- Adds a bucket. -/
def add (s : Stage κ ν) (b : Bucket κ ν) : Stage κ ν :=
  ⟨Heap.push Bucket.before s.heap b⟩

/-- Puts a message into the bucket of its timestamp, creating the bucket if the index leads to
none; answers whether the key was already there. -/
def put (s : Stage κ ν) (ts : Float) (k : κ) (v : ν) : Stage κ ν × Bool :=
  match s.find? ts with
  | some i =>
    match s.heap[i]? with
    | some b =>
      let (entries, replaced) := putEntry k v b.entries
      (⟨s.heap.setIfInBounds i { b with entries }⟩, replaced)
    | none => (s, false)
  | none => (s.add { ts, entries := [(k, v)] }, false)

/-- Clears the index entry of timestamp `ts`. -/
def unindex (s : Stage κ ν) (ts : Float) : Stage κ ν :=
  ⟨s.heap.map fun b => if b.ts == ts then { b with indexed := false } else b⟩

/-- The oldest bucket. -/
def peek? (s : Stage κ ν) : Option (Bucket κ ν) := s.heap[0]?

/-- Releases the oldest bucket. -/
def pop? (s : Stage κ ν) : Option (Bucket κ ν × Stage κ ν) :=
  (Heap.pop? Bucket.before s.heap).map fun (b, h) => (b, (⟨h⟩ : Stage κ ν).unindex b.ts)

/-- Takes over a bucket from another stage, with the index entry of its timestamp. -/
def adopt (s : Stage κ ν) (b : Bucket κ ν) : Stage κ ν :=
  (s.unindex b.ts).add { b with indexed := true }

end Stage

/-- A delivery buffer for messages with keys `κ` and values `ν`. -/
structure Buffer (κ ν : Type) where
  name : String
  policy : Policy
  synchronized : Bool := true
  ready : Stage κ ν := {}
  future : Stage κ ν := {}
  terminated : Bool := false

/-- Keeps the last message of each key, in the order of those last messages. -/
def lastOfEachKey : List (Item κ ν) → List (Item κ ν)
  | [] => []
  | it :: rest => if rest.any (·.key == it.key) then lastOfEachKey rest else it :: lastOfEachKey rest

/-- The items of a bucket, in key order. -/
def Bucket.items (b : Bucket κ ν) : List (Item κ ν) :=
  b.entries.map fun (k, v) => ⟨b.ts, k, v⟩

namespace Buffer

/-- The number of buckets held. -/
def depth (b : Buffer κ ν) : Nat := b.ready.size + b.future.size

/-- The numbers of ready and kept-aside buckets. -/
def pending (b : Buffer κ ν) : Nat × Nat := (b.ready.size, b.future.size)

/-- Accepts a message in window `w`. A message after termination is discarded silently; one
that a synchronized buffer with policy `rejectFuture` cannot place fails with an ordering
failure. -/
def insert (b : Buffer κ ν) (w : Window) (ts : Float) (k : κ) (v : ν) :
    Except Fault Unit × Buffer κ ν × List Report :=
  if b.terminated then (.ok (), b, [.discarded])
  else
    let placed : Option (Buffer κ ν × Bool) :=
      if !b.synchronized then
        let (s, r) := b.ready.put 0 k v
        some ({ b with ready := s }, r)
      else if (b.future.find? ts).isSome then
        let (s, r) := b.future.put ts k v
        some ({ b with future := s }, r)
      else if ts ≤ w.next then
        let (s, r) := b.ready.put ts k v
        some ({ b with ready := s }, r)
      else if b.policy == .deferFuture then
        let (s, r) := b.future.put ts k v
        some ({ b with future := s }, r)
      else none
    match placed with
    | some (b', replaced) =>
      (.ok (), b', [.received] ++ (if replaced then [.superseded] else []) ++ [.depth b'.depth])
    | none =>
      (.error (Fault.ordering b.name (.wrap "" (.condition .futureMessage)
        (": timestamp " ++ ts.render ++ ", next step at " ++ w.next.render))),
        b, [.received, .discarded])

/-- Releases ready buckets, oldest first, while they are due; at most `fuel` of them. -/
def releaseReady (sync : Bool) (now : Float) : Nat → Stage κ ν → List (Item κ ν) × Stage κ ν
  | 0, s => ([], s)
  | fuel + 1, s =>
    match s.peek? with
    | some head =>
      if sync && decide (head.ts > now) then ([], s)
      else match s.pop? with
        | some (bk, s') =>
          let (rest, s'') := releaseReady sync now fuel s'
          (bk.items ++ rest, s'')
        | none => ([], s)
    | none => ([], s)

/-- Moves the kept-aside buckets that `next` reaches into the ready stage; at most `fuel` of
them. -/
def promote (next : Float) : Nat → Stage κ ν → Stage κ ν → Stage κ ν × Stage κ ν
  | 0, r, f => (r, f)
  | fuel + 1, r, f =>
    match f.peek? with
    | some head =>
      if decide (head.ts > next) then (r, f)
      else match f.pop? with
        | some (bk, f') => promote next fuel (r.adopt bk) f'
        | none => (r, f)
    | none => (r, f)

/-- Releases the messages due in window `w`. -/
def drain (b : Buffer κ ν) (w : Window) :
    Except Fault (List (Item κ ν)) × Buffer κ ν × List Report :=
  if b.terminated then
    (.error (.wrap ("drain " ++ b.name ++ ": ") (.condition .terminated) ""), b, [])
  else
    let (drained, ready) := releaseReady b.synchronized w.now b.ready.size b.ready
    let items := lastOfEachKey drained
    let dropped := drained.length - items.length
    let (ready', future') := promote w.next b.future.size ready b.future
    let b' := { b with ready := ready', future := future' }
    (.ok items, b', List.replicate dropped .superseded ++ [.delivered items.length, .depth b'.depth])

/-- Stops the buffer: it drops every bucket and refuses to drain from now on. -/
def terminate (b : Buffer κ ν) : Buffer κ ν :=
  { b with terminated := true, ready := {}, future := {} }

end Buffer

end

/-- Running totals of what a buffer reported. `deliveries` and `depthReports` count the
reports of those kinds; `depth` is the last depth reported. -/
structure Tally where
  received : Nat := 0
  superseded : Nat := 0
  discarded : Nat := 0
  delivered : Nat := 0
  deliveries : Nat := 0
  depth : Nat := 0
  depthReports : Nat := 0
deriving Repr, DecidableEq, Inhabited

/-- Adds a report to the totals. -/
def Tally.record (t : Tally) : Report → Tally
  | .received => { t with received := t.received + 1 }
  | .superseded => { t with superseded := t.superseded + 1 }
  | .discarded => { t with discarded := t.discarded + 1 }
  | .delivered n => { t with delivered := t.delivered + n, deliveries := t.deliveries + 1 }
  | .depth n => { t with depth := n, depthReports := t.depthReports + 1 }

/-- Adds reports in order. -/
def Tally.recordAll (t : Tally) (rs : List Report) : Tally := rs.foldl Tally.record t

end CoSimBridge.Delivery
