import NetworkLayers.Net.Forward
import NetworkLayers.Lib.Transition

/-!
# The send queue (net_layer.c)

`wait_list_insert` and `wait_list_remove` in steps that other threads can come between: an operation on a semaphore or on
`prod_insert`, an assignment to an index, the copy of one field of an item.
-/

namespace NetworkLayers

/-- The assignments of `wait_list_insert`, from `head` to `wait_list[prod_vector]`. -/
def waitListAssigns : List (WaitListItem → WaitListItem → WaitListItem) :=
  [fun head e => { e with dest := head.dest }, fun head e => { e with src := head.src },
   fun head e => { e with data := head.data }, fun head e => { e with size := head.size },
   fun head e => { e with protocol := head.protocol }, fun head e => { e with firstDestLink := head.firstDestLink },
   fun head e => { e with offset := head.offset }, fun head e => { e with ttl := head.ttl },
   fun head e => { e with id := head.id }]

/-- One of the assignments. -/
def assignField (k : Nat) (head e : WaitListItem) : WaitListItem := ((waitListAssigns[k]?).map fun f => f head e).getD e

/-- The step a call of `wait_list_insert` takes next. -/
inductive InsertPc where
  /-- `semop(g_sem_prod, g_sem_bloquea, 1)` -/
  | semProd
  /-- `pthread_mutex_lock(&prod_insert)` -/
  | lock
  /-- `prod_vector = (prod_vector + 1) % MAX_SEND_WAITING` -/
  | index
  /-- assignment `k` to `wait_list[prod_vector]` -/
  | assign (k : Nat)
  /-- `pthread_mutex_unlock(&prod_insert)` -/
  | unlock
  /-- `semop(g_sem_cons, g_sem_libera, 1)` -/
  | semCons
  | done
  deriving DecidableEq, Repr

/-- A call of `wait_list_insert`, by any of the threads that send. -/
structure InsertCall where
  pc : InsertPc
  head : WaitListItem
  deriving DecidableEq, Repr

/-- The step `internalsend`, the one that calls `wait_list_remove`, takes next in it. -/
inductive RemovePc where
  /-- `semop(g_sem_cons, g_sem_bloquea, 1)` -/
  | semCons
  /-- `tmp = wait_list[cons_vector]`, field `k` -/
  | copy (k : Nat)
  /-- `cons_vector = (cons_vector + 1) % MAX_SEND_WAITING` -/
  | index
  /-- `semop(g_sem_prod, g_sem_libera, 1)` -/
  | semProd
  deriving DecidableEq, Repr

/-- The queue and the calls that are at work on it. What was inserted, in the order `prod_insert` was locked, and what was removed
are kept for the statements; no step reads them. -/
structure SendQueue where
  semProd : Nat
  semCons : Nat
  /-- the call that has `prod_insert` locked -/
  prodInsert : Option Nat
  prodVector : Nat
  consVector : Nat
  waitList : Nat → WaitListItem
  inserts : List InsertCall
  removePc : RemovePc
  tmp : WaitListItem
  inserted : List WaitListItem
  removed : List WaitListItem

/-- An item of a queue nothing was inserted in. -/
def emptyItem : WaitListItem :=
  { dest := 0, src := 0, data := [], offset := 0, ttl := 0, size := 0, protocol := 0, id := 0, firstDestLink := 0 }

/-- The queue after `net_init`. -/
def SendQueue.init : SendQueue :=
  { semProd := maxSendWaiting, semCons := 0, prodInsert := none, prodVector := maxSendWaiting - 1, consVector := 0,
    waitList := fun _ => emptyItem, inserts := [], removePc := .semCons, tmp := emptyItem, inserted := [], removed := [] }

/-- What can happen next. -/
inductive QueueAction where
  /-- a thread calls `wait_list_insert` -/
  | call (head : WaitListItem)
  /-- a call of `wait_list_insert` takes its next step -/
  | insert (i : Nat)
  /-- `wait_list_remove` takes its next step; after the last it is called again -/
  | remove
  deriving DecidableEq, Repr

/-- A call goes to its next step. -/
def SendQueue.goto (q : SendQueue) (i : Nat) (p : InsertCall) (pc : InsertPc) : SendQueue :=
  { q with inserts := q.inserts.set i { p with pc := pc } }

/-- A step of a call of `wait_list_insert`. -/
def SendQueue.waitListInsert (q : SendQueue) (i : Nat) (p : InsertCall) : Option SendQueue :=
  match p.pc with
  | .semProd => if q.semProd = 0 then none else some ({ q with semProd := q.semProd - 1 }.goto i p .lock)
  | .lock =>
    if q.prodInsert.isSome then none
    else some ({ q with prodInsert := some i, inserted := q.inserted ++ [p.head] }.goto i p .index)
  | .index => some ({ q with prodVector := (q.prodVector + 1) % maxSendWaiting }.goto i p (.assign 0))
  | .assign k =>
    some ({ q with waitList := Function.update q.waitList q.prodVector (assignField k p.head (q.waitList q.prodVector)) }.goto
      i p (if k + 1 = waitListAssigns.length then .unlock else .assign (k + 1)))
  | .unlock => some ({ q with prodInsert := none }.goto i p .semCons)
  | .semCons => some ({ q with semCons := q.semCons + 1 }.goto i p .done)
  | .done => none

/-- A step of `wait_list_remove`. -/
def SendQueue.waitListRemove (q : SendQueue) : Option SendQueue :=
  match q.removePc with
  | .semCons => if q.semCons = 0 then none else some { q with semCons := q.semCons - 1, removePc := .copy 0 }
  | .copy k =>
    some { q with
      tmp := assignField k (q.waitList q.consVector) q.tmp
      removePc := if k + 1 = waitListAssigns.length then .index else .copy (k + 1) }
  | .index =>
    some { q with
      consVector := (q.consVector + 1) % maxSendWaiting
      removed := q.removed ++ [q.tmp]
      removePc := .semProd }
  | .semProd => some { q with semProd := q.semProd + 1, removePc := .semCons }

/-- A step of any of the threads. -/
def SendQueue.step (q : SendQueue) : QueueAction → Option SendQueue
  | .call head => some { q with inserts := q.inserts ++ [{ pc := .semProd, head := head }] }
  | .insert i => (q.inserts[i]?).bind fun p => q.waitListInsert i p
  | .remove => q.waitListRemove

end NetworkLayers
