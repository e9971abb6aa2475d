import NetworkLayers.Net.Wire
import NetworkLayers.Net.Routes
import Mathlib.Data.List.TakeWhile

/-!
# Routes in memory (net_layer.c)

`internalsendroute` copies a `routetable_t` as it stands in memory into the data of a datagram, and `internalhandleroute` reads one
out of the data that `getpack` has put together.
-/

namespace NetworkLayers

open Bytes

/-- The fields of a `routetable_t`, each with its size. -/
def RouteTable.fields (r : RouteTable) : List (Nat × Nat) := [(1, r.dest), (1, r.cost), (2, r.gateway)]

/-- The bytes of a `routetable_t`, `memcpy(aux, &packcomunication, sizeof(packcomunication))`. -/
def RouteTable.bytes (r : RouteTable) : List Byte := encode r.fields

/-- `routereceived = *(routetable_t *)param`, as far as the bytes of the packet have been written. -/
def routereceived (param : List (Option Byte)) : Except Fault RouteTable := do
  let buf := (param.takeWhile Option.isSome).filterMap id
  let dest ← numAt buf 0 1
  let cost ← numAt buf 1 1
  let gateway ← numAt buf 2 2
  return { dest := dest, cost := cost, gateway := gateway }

@[simp] theorem length_routeBytes (r : RouteTable) : r.bytes.length = 4 := by
  simp [RouteTable.bytes, RouteTable.fields, widthOf]

/-- A route whose fields are within their C types is read back. -/
theorem routereceived_bytes {r : RouteTable} (h : FieldsFit r.fields) : routereceived (r.bytes.map some) = .ok r := by
  have hbuf : ((r.bytes.map some).takeWhile Option.isSome).filterMap id = r.bytes := by
    rw [List.takeWhile_map, List.filterMap_map]
    have hall : r.bytes.takeWhile (Option.isSome ∘ some) = r.bytes := List.takeWhile_eq_self_iff.2 fun _ _ => rfl
    rw [hall]
    exact List.filterMap_some
  have hnum : ∀ {i off w v : Nat}, r.fields[i]? = some (w, v) → widthOf (r.fields.take i) = off →
      numAt r.bytes off w = .ok v := by
    intro i off w v hfield hoff
    have hread := numAt_field h hfield hoff []
    rwa [List.append_nil] at hread
  have hdest : numAt r.bytes 0 1 = .ok r.dest := hnum (i := 0) rfl rfl
  have hcost : numAt r.bytes 1 1 = .ok r.cost := hnum (i := 1) rfl rfl
  have hgateway : numAt r.bytes 2 2 = .ok r.gateway := hnum (i := 2) rfl rfl
  simp only [routereceived, hbuf, hdest, hcost, hgateway, ok_bind]
  rfl

end NetworkLayers
