import NetworkLayers.Net.NetList
import NetworkLayers.Lib.Transition

/-!
# The list of packets under reassembly: what one call does

`addoffset_cases` says once everything a call of `addoffset` that returns can do. From it: which cells the call writes
(`addoffset_frame`), that the fragments of the entry stay linked among themselves and the new cell (`addoffset_reaches`), and when
the call returns at all (`addoffset_returns_iff`).
-/

namespace NetworkLayers

open Cells

/-- What a call of `addoffset` that returns has done: a first fragment, a fragment linked behind the last one, a fragment already
held at the last place, or a fragment linked in front of the one it follows. -/
theorem addoffset_cases {cells cells' : Store Datagram} {offs offs' : Option Nat} {d : Datagram} {added : Bool}
    (h : addoffset cells offs d = .ok (cells', offs', added)) :
    (offs = none ∧ cells' = cells ++ [⟨d, none⟩] ∧ offs' = some cells.length ∧ added = true) ∨
      ∃ head prev aux last, offs = some head ∧ offs' = some head ∧
        seek (follows d) cells cells.length none head = some (prev, aux) ∧ cells[aux]? = some last ∧
        ((last.next = none ∧ last.val.offset ≠ d.offset ∧ added = true ∧
            cells' = setNext cells aux (some cells.length) ++ [⟨d, none⟩]) ∨
          (last.next = none ∧ last.val.offset = d.offset ∧ added = false ∧ cells' = cells) ∨
          (last.next ≠ none ∧ added = true ∧ ∃ p before, prev = some p ∧
            (setNext cells aux (some cells.length))[p]? = some before ∧
            cells' = setNext (setNext cells aux (some cells.length) ++ [⟨d, before.next⟩]) p (some cells.length))) := by
  unfold addoffset at h
  split at h
  · cases h
    exact Or.inl ⟨rfl, rfl, rfl, rfl⟩
  · rename_i head
    right
    split at h
    · cases h
    · rename_i prev aux hseek
      split at h
      · cases h
      · rename_i last hlast
        refine ⟨head, prev, aux, last, rfl, ?_⟩
        split at h
        · rename_i hnext
          split at h
          · rename_i hoff
            cases h
            exact ⟨rfl, hseek, hlast, Or.inl ⟨hnext, hoff, rfl, rfl⟩⟩
          · rename_i hoff
            cases h
            exact ⟨rfl, hseek, hlast, Or.inr (Or.inl ⟨hnext, not_not.1 hoff, rfl, rfl⟩)⟩
        · rename_i hnext
          split at h
          · cases h
          · rename_i p
            simp only at h
            split at h
            · cases h
            · rename_i before hbefore
              simp only [length_setNext, Except.ok.injEq, Prod.mk.injEq] at h
              obtain ⟨rfl, rfl, rfl⟩ := h
              exact ⟨rfl, hseek, hlast, Or.inr (Or.inr ⟨hnext, rfl, p, before, rfl, hbefore, rfl⟩)⟩

/-! ## The cells a call writes -/

/-- The store afterwards differs from the one before in the cells reached from the entry's fragments, and in at most one new
cell. -/
theorem addoffset_frame {cells cells' : Store Datagram} {offs offs' : Option Nat} {d : Datagram} {added : Bool}
    (h : addoffset cells offs d = .ok (cells', offs', added)) :
    cells.length ≤ cells'.length ∧
      ∀ a, a < cells.length → ¬Reaches cells offs a → cells'[a]? = cells[a]? := by
  rcases addoffset_cases h with ⟨-, rfl, -, -⟩ | ⟨head, prev, aux, last, rfl, rfl, hseek, hlast, hcase⟩
  · refine ⟨by simp, ?_⟩
    intro a ha _
    rw [get_alloc, if_neg ha.ne]
  · obtain ⟨haux, -, hprev⟩ := seek_spec hseek
    rcases hcase with ⟨-, -, -, rfl⟩ | ⟨-, -, -, rfl⟩ | ⟨-, -, p, before, rfl, -, rfl⟩
    · refine ⟨by simp, ?_⟩
      intro a ha hn
      have hne : a ≠ aux := fun he => hn (he ▸ haux)
      rw [get_alloc, if_neg (by simpa using ha.ne), get_setNext, if_neg hne]
    · exact ⟨le_rfl, fun _ _ _ => rfl⟩
    · refine ⟨by simp, ?_⟩
      intro a ha hn
      have hp : Reaches cells (some head) p := by
        rcases hprev with ⟨hp, -⟩ | ⟨q, c, hq, hr, -, -⟩
        · cases hp
        · cases hq
          exact hr
      have hne : a ≠ aux := fun he => hn (he ▸ haux)
      have hne' : a ≠ p := fun he => hn (he ▸ hp)
      rw [get_setNext, if_neg hne', get_alloc, if_neg (by simpa using ha.ne), get_setNext, if_neg hne]

/-- A cell of the store afterwards that was reached before, or is the new one, points to such a cell. -/
theorem addoffset_links {cells cells' : Store Datagram} {offs offs' : Option Nat} {d : Datagram} {added : Bool}
    (h : addoffset cells offs d = .ok (cells', offs', added)) {a : Nat} (ha : Reaches cells offs a ∨ a = cells.length)
    {c : Cell Datagram} (hc : cells'[a]? = some c) {b : Nat} (hb : c.next = some b) :
    Reaches cells offs b ∨ b = cells.length := by
  have hold : ∀ c', cells[a]? = some c' → c'.next = some b → Reaches cells offs b ∨ b = cells.length := by
    intro c' hc' hb'
    rcases ha with ha | rfl
    · exact Or.inl (ha.snoc hc' hb')
    · exact absurd (lt_of_get hc') (lt_irrefl _)
  rcases addoffset_cases h with ⟨rfl, rfl, -, -⟩ | ⟨head, prev, aux, last, rfl, rfl, hseek, hlast, hcase⟩
  · rw [get_alloc] at hc
    split at hc
    · cases hc
      cases hb
    · exact hold c hc hb
  · rcases hcase with ⟨-, -, -, rfl⟩ | ⟨-, -, -, rfl⟩ | ⟨-, -, p, before, rfl, hbefore, rfl⟩
    · rw [get_alloc, length_setNext, get_setNext] at hc
      split at hc
      · cases hc
        cases hb
      · split at hc
        · obtain ⟨c', -, rfl⟩ := Option.map_eq_some_iff.1 hc
          cases hb
          exact Or.inr rfl
        · exact hold c hc hb
    · exact hold c hc hb
    · -- what `prev` pointed to when the new cell took it over: the new cell itself, or what it pointed to before
      have hbef : ∀ x, before.next = some x → Reaches cells (some head) x ∨ x = cells.length := by
        intro x hx
        obtain ⟨-, -, hprev⟩ := seek_spec hseek
        rcases hprev with ⟨hp, -⟩ | ⟨q, cq, hq, hr, hcq, hnq⟩
        · cases hp
        · cases hq
          rw [get_setNext, hcq] at hbefore
          split at hbefore
          · cases hbefore
            cases hx
            exact Or.inr rfl
          · cases hbefore
            exact Or.inl (hr.snoc hcq hx)
      rw [get_setNext] at hc
      split at hc
      · obtain ⟨c', -, rfl⟩ := Option.map_eq_some_iff.1 hc
        cases hb
        exact Or.inr rfl
      · rw [get_alloc, length_setNext, get_setNext] at hc
        split at hc
        · cases hc
          exact hbef b hb
        · split at hc
          · obtain ⟨c', -, rfl⟩ := Option.map_eq_some_iff.1 hc
            cases hb
            exact Or.inr rfl
          · exact hold c hc hb

/-- The first fragment afterwards was the first before, or is the new cell. -/
theorem addoffset_head {cells cells' : Store Datagram} {offs offs' : Option Nat} {d : Datagram} {added : Bool}
    (h : addoffset cells offs d = .ok (cells', offs', added)) :
    (offs' = some cells.length ∧ offs = none) ∨ (offs' = offs ∧ offs ≠ none) := by
  rcases addoffset_cases h with ⟨rfl, -, rfl, -⟩ | ⟨head, prev, aux, last, rfl, rfl, -⟩
  · exact Or.inl ⟨rfl, rfl⟩
  · exact Or.inr ⟨rfl, by simp⟩

/-- No call changes the datagram in a cell, and a new cell holds the new one. -/
theorem addoffset_vals {cells cells' : Store Datagram} {offs offs' : Option Nat} {d : Datagram} {added : Bool}
    (h : addoffset cells offs d = .ok (cells', offs', added)) :
    cells'.map Cell.val = cells.map Cell.val ∨ cells'.map Cell.val = cells.map Cell.val ++ [d] := by
  rcases addoffset_cases h with ⟨-, rfl, -, -⟩ | ⟨head, prev, aux, last, -, -, -, -, hcase⟩
  · exact Or.inr (by simp)
  · rcases hcase with ⟨-, -, -, rfl⟩ | ⟨-, -, -, rfl⟩ | ⟨-, -, p, before, -, -, rfl⟩
    · exact Or.inr (by simp)
    · exact Or.inl rfl
    · exact Or.inr (by simp)

/-- The fragments of the entry stay linked among themselves and the new cell. -/
theorem addoffset_reaches {cells cells' : Store Datagram} {offs offs' : Option Nat} {d : Datagram} {added : Bool}
    (h : addoffset cells offs d = .ok (cells', offs', added)) {a : Nat} (ha : Reaches cells' offs' a) :
    Reaches cells offs a ∨ a = cells.length := by
  refine ha.of_linked ?_ fun x hx c b hc hb => addoffset_links h hx hc hb
  intro x hx
  rcases addoffset_head h with ⟨he, -⟩ | ⟨he, -⟩
  · rw [he] at hx
    cases hx
    exact Or.inr rfl
  · rw [he] at hx
    rw [hx]
    exact Or.inl (Reaches.here x)

/-- The datagrams of the entry are those it held and the new one. -/
theorem addoffset_reached_val {cells cells' : Store Datagram} {offs offs' : Option Nat} {d : Datagram} {added : Bool}
    (h : addoffset cells offs d = .ok (cells', offs', added)) {a : Nat} (ha : Reaches cells' offs' a) {c : Cell Datagram}
    (hc : cells'[a]? = some c) : (∃ c', Reaches cells offs a ∧ cells[a]? = some c' ∧ c'.val = c.val) ∨ c.val = d := by
  have hval : (cells'.map Cell.val)[a]? = some c.val := by rw [List.getElem?_map, hc]; rfl
  have hnew : a = cells.length → c.val = d := by
    rintro rfl
    rcases addoffset_vals h with heq | heq
    · rw [heq, ← List.length_map Cell.val, List.getElem?_length] at hval
      cases hval
    · rw [heq, ← List.length_map Cell.val, List.getElem?_concat_length] at hval
      exact (Option.some.inj hval).symm
  have hold : a ≠ cells.length → (cells.map Cell.val)[a]? = some c.val := by
    intro hne
    rcases addoffset_vals h with heq | heq
    · rwa [heq] at hval
    · rw [heq] at hval
      have hlt := (List.getElem?_eq_some_iff.1 hval).1
      rw [List.length_append, List.length_map, List.length_singleton] at hlt
      rwa [List.getElem?_append_left (by rw [List.length_map]; omega)] at hval
  rcases addoffset_reaches h ha with hr | heq
  · by_cases hlen : a = cells.length
    · exact Or.inr (hnew hlen)
    · have hv := hold hlen
      rw [List.getElem?_map] at hv
      obtain ⟨c', hc', hv⟩ := Option.map_eq_some_iff.1 hv
      exact Or.inl ⟨c', hr, hc', hv⟩
  · exact Or.inr (hnew heq)

/-- The fragments of the entry are cells of the store afterwards, when they were before. -/
theorem addoffset_closed {cells cells' : Store Datagram} {offs offs' : Option Nat} {d : Datagram} {added : Bool}
    (h : addoffset cells offs d = .ok (cells', offs', added)) (hcl : Closed cells offs) : Closed cells' offs' := by
  intro a ha
  have hlt : a < cells'.length := by
    rcases addoffset_reaches h ha with hr | rfl
    · obtain ⟨c, hc⟩ := hcl a hr
      exact Nat.lt_of_lt_of_le (lt_of_get hc) (addoffset_frame h).1
    · -- the address of the new cell is only reached when there is one
      rcases addoffset_cases h with ⟨-, rfl, -, -⟩ | ⟨head, prev, aux, last, rfl, rfl, -, -, hcase⟩
      · simp
      · rcases hcase with ⟨-, -, -, rfl⟩ | ⟨-, -, -, rfl⟩ | ⟨-, -, p, before, -, -, rfl⟩
        · simp
        · obtain ⟨c, hc⟩ := hcl _ ha
          exact lt_of_get hc
        · simp
  exact ⟨_, List.getElem?_eq_getElem hlt⟩

/-! ## When a call returns -/

/-- The first fragment has another behind it, and `d` follows it: the walk ends at once, with no cell before it. -/
def HeadMatch (cells : Store Datagram) (offs : Option Nat) (d : Datagram) : Prop :=
  ∃ head c, offs = some head ∧ cells[head]? = some c ∧ c.next ≠ none ∧ follows d c.val = true

/-- The fragments go round in a circle, and `d` follows none of them: the walk never ends. -/
def Circles (cells : Store Datagram) (offs : Option Nat) (d : Datagram) : Prop :=
  Endless cells offs ∧ ∀ a c, Reaches cells offs a → cells[a]? = some c → follows d c.val = false

theorem circles_iff_passed {cells : Store Datagram} {head : Nat} {d : Datagram} :
    Circles cells (some head) d ↔ ∀ b, Reaches cells (some head) b → Passed (follows d) cells b := by
  constructor
  · rintro ⟨⟨-, hend⟩, hno⟩ b hb
    obtain ⟨c, hc, hn⟩ := hend b hb
    exact ⟨c, hc, hn, hno b c hb hc⟩
  · intro hp
    refine ⟨⟨by simp, ?_⟩, ?_⟩
    · intro a ha
      obtain ⟨c, hc, hn, -⟩ := hp a ha
      exact ⟨c, hc, hn⟩
    · intro a c ha hc
      obtain ⟨c', hc', -, hs⟩ := hp a ha
      rw [hc] at hc'
      cases hc'
      exact hs

/-- The walk ends at the first fragment, with another behind it. -/
theorem headMatch_iff_seek {cells : Store Datagram} {head : Nat} (hcl : Closed cells (some head)) (d : Datagram) :
    HeadMatch cells (some head) d ↔ ∃ aux last, seek (follows d) cells cells.length none head = some (none, aux) ∧
      cells[aux]? = some last ∧ last.next ≠ none := by
  obtain ⟨c, hc⟩ := hcl head (Reaches.here head)
  have hpos : 0 < cells.length := Nat.zero_lt_of_lt (lt_of_get hc)
  constructor
  · rintro ⟨_, c', hh, hc', hnext, hfol⟩
    cases hh
    exact ⟨head, c', (seek_first_iff hc' hnext hpos).2 hfol, hc', hnext⟩
  · rintro ⟨aux, last, hseek, hlast, hnext⟩
    obtain rfl := seek_none_eq hseek
    exact ⟨aux, last, rfl, hlast, hnext, (seek_first_iff hlast hnext hpos).1 hseek⟩

/-- The walk has no end. -/
theorem circles_iff_seek {cells : Store Datagram} {head : Nat} (hcl : Closed cells (some head)) (d : Datagram) :
    Circles cells (some head) d ↔ seek (follows d) cells cells.length none head = none :=
  circles_iff_passed.trans (seek_eq_none_iff hcl).symm

/-- `addoffset` returns unless the first fragment ends its walk or the walk goes round in a circle. -/
theorem addoffset_returns_iff {cells : Store Datagram} {offs : Option Nat} (hcl : Closed cells offs) (d : Datagram) :
    (∃ r, addoffset cells offs d = .ok r) ↔ ¬HeadMatch cells offs d ∧ ¬Circles cells offs d := by
  cases offs with
  | none =>
    refine iff_of_true ⟨_, rfl⟩ ⟨?_, ?_⟩
    · rintro ⟨head, c, h, -⟩
      cases h
    · rintro ⟨⟨h, -⟩, -⟩
      exact h rfl
  | some head =>
    rw [headMatch_iff_seek hcl, circles_iff_seek hcl]
    constructor
    · rintro ⟨⟨cells', offs', added⟩, h⟩
      rcases addoffset_cases h with ⟨h0, -⟩ | ⟨_, prev, aux, last, h0, -, hseek, hlast, hcase⟩
      · cases h0
      · cases h0
        refine ⟨?_, by rw [hseek]; simp⟩
        rintro ⟨aux', last', hseek', hlast', hnext⟩
        obtain ⟨rfl, rfl⟩ := Prod.mk.inj (Option.some.inj (hseek.symm.trans hseek'))
        obtain rfl := Option.some.inj (hlast.symm.trans hlast')
        rcases hcase with ⟨h1, -⟩ | ⟨h1, -⟩ | ⟨-, -, p, before, hp, -⟩
        · exact hnext h1
        · exact hnext h1
        · cases hp
    · rintro ⟨hhead, hcir⟩
      obtain ⟨⟨prev, aux⟩, hseek⟩ := Option.ne_none_iff_exists'.1 hcir
      obtain ⟨-, ⟨last, hlast, -⟩, hprev⟩ := seek_spec hseek
      simp only [addoffset, hseek, hlast]
      by_cases hnext : last.next = none
      · simp only [hnext, if_true]
        split <;> exact ⟨_, rfl⟩
      · simp only [hnext, if_false]
        rcases hprev with ⟨rfl, rfl⟩ | ⟨q, cq, rfl, -, hcq, -⟩
        · exact absurd ⟨aux, last, hseek, hlast, hnext⟩ hhead
        · obtain ⟨before, hbefore⟩ : ∃ before, (setNext cells aux (some cells.length))[q]? = some before := by
            rw [get_setNext, hcq]
            split <;> exact ⟨_, rfl⟩
          simp only [hbefore]
          exact ⟨_, rfl⟩

/-! ## Entries of the list -/

theorem isFor_iff {e : PackLst} {id src : Nat} : e.isFor id src = true ↔ e.id = id ∧ e.src = src := by
  simp [PackLst.isFor]

theorem isFor_self (e : PackLst) : e.isFor e.id e.src = true := isFor_iff.2 ⟨rfl, rfl⟩

theorem getid_some {packs : List PackLst} {id src : Nat} {e : PackLst} (h : getid packs id src = some e) :
    e ∈ packs ∧ e.id = id ∧ e.src = src :=
  ⟨List.mem_of_find?_eq_some h, isFor_iff.1 (List.find?_some (p := fun e : PackLst => e.isFor id src) h)⟩

theorem getid_none {packs : List PackLst} {id src : Nat} (h : getid packs id src = none) :
    ∀ e ∈ packs, ¬e.isFor id src :=
  List.find?_eq_none.1 h

/-- Where a packet has one entry, it is the one found. -/
theorem getid_of_mem {packs : List PackLst} (h : (packs.map fun e => (e.id, e.src)).Nodup) {e : PackLst} (he : e ∈ packs) :
    getid packs e.id e.src = some e := by
  cases hg : getid packs e.id e.src with
  | none => exact absurd (isFor_iff.2 ⟨rfl, rfl⟩) (getid_none hg e he)
  | some e' =>
    obtain ⟨he', h1, h2⟩ := getid_some hg
    have hkey : (e'.id, e'.src) = (e.id, e.src) := by rw [h1, h2]
    rw [List.inj_on_of_nodup_map h he' he hkey]

/-- Writing an entry leaves the entries of the other packets. -/
theorem filter_setEntry (packs : List PackLst) (e : PackLst) :
    (setEntry packs e).filter (fun x => !x.isFor e.id e.src) = packs.filter fun x => !x.isFor e.id e.src := by
  induction packs with
  | nil => rfl
  | cons y rest ih =>
    simp only [setEntry]
    split
    · rename_i hy
      simp [hy, isFor_self]
    · simp [List.filter_cons, ih]

/-- The entry written is the one found afterwards. -/
theorem getid_setEntry {packs : List PackLst} {e e' : PackLst} (h : getid packs e.id e.src = some e') :
    getid (setEntry packs e) e.id e.src = some e := by
  induction packs with
  | nil => cases h
  | cons y rest ih =>
    simp only [setEntry]
    by_cases hy : y.isFor e.id e.src = true
    · simp [getid, hy, isFor_self]
    · simp only [getid, List.find?_cons, hy] at h
      simp only [hy, getid, List.find?_cons, if_false, Bool.false_eq_true]
      exact ih h

/-- Writing an entry leaves the packets the entries are for. -/
theorem keys_setEntry (packs : List PackLst) (e : PackLst) :
    (setEntry packs e).map (fun x => (x.id, x.src)) = packs.map fun x => (x.id, x.src) := by
  induction packs with
  | nil => rfl
  | cons y rest ih =>
    simp only [setEntry]
    split
    · rename_i hy
      obtain ⟨h1, h2⟩ := isFor_iff.1 hy
      simp [h1, h2]
    · simp [ih]

/-- Where a packet has one entry, two entries of it are the same. -/
theorem eq_of_keys {packs : List PackLst} (h : (packs.map fun e => (e.id, e.src)).Nodup) {e e' : PackLst}
    (he : e ∈ packs) (he' : e' ∈ packs) (hkey : e'.isFor e.id e.src = true) : e' = e := by
  obtain ⟨h1, h2⟩ := isFor_iff.1 hkey
  exact List.inj_on_of_nodup_map h he' he (by simp [h1, h2])

/-- An entry of a list with one entry written is that one, or an entry of another packet. -/
theorem mem_setEntry {packs : List PackLst} (h : (packs.map fun e => (e.id, e.src)).Nodup) {e x : PackLst}
    (hx : x ∈ setEntry packs e) : x = e ∨ (x ∈ packs ∧ ¬x.isFor e.id e.src) := by
  induction packs with
  | nil => cases hx
  | cons y rest ih =>
    obtain ⟨hnot, hnd⟩ := List.nodup_cons.1 h
    simp only [setEntry] at hx
    split at hx
    · rename_i hy
      rcases List.mem_cons.1 hx with rfl | hx
      · exact Or.inl rfl
      · refine Or.inr ⟨List.mem_cons_of_mem _ hx, fun hk => hnot ?_⟩
        obtain ⟨h1, h2⟩ := isFor_iff.1 hy
        obtain ⟨h3, h4⟩ := isFor_iff.1 hk
        exact List.mem_map.2 ⟨x, hx, by simp [h1, h2, h3, h4]⟩
    · rename_i hy
      rcases List.mem_cons.1 hx with rfl | hx
      · exact Or.inr ⟨List.mem_cons_self, hy⟩
      · exact (ih hnd hx).imp_right fun h => ⟨List.mem_cons_of_mem _ h.1, h.2⟩

/-! ## What a call of `insertoffset` computes -/

/-- The entry `insertoffset` makes of a new packet whose first fragment is `d`, the new cell. -/
def freshEntry (cells : Store Datagram) (d : Datagram) : PackLst :=
  let e := { initpacklst d.id d.src d.size with offs := some cells.length }
  if islastfrag d then { e with totalSize := closedSize d } else e

/-- The entry `insertoffset` makes of the entry `e` when `d` was linked to its fragments. -/
def grownEntry (e : PackLst) (offs : Option Nat) (d : Datagram) : PackLst :=
  let e := { e with offs := offs, countSize := u64 (e.countSize + d.size) }
  if islastfrag d then { e with totalSize := closedSize d } else e

theorem freshEntry_isFor (cells : Store Datagram) (d : Datagram) : (freshEntry cells d).isFor d.id d.src = true := by
  unfold freshEntry
  split <;> simp [PackLst.isFor, initpacklst]

theorem grownEntry_key (e : PackLst) (offs : Option Nat) (d : Datagram) :
    (grownEntry e offs d).id = e.id ∧ (grownEntry e offs d).src = e.src := by
  unfold grownEntry
  split <;> simp

/-- On a list with no entry, any datagram opens its packet. -/
theorem insertoffset_nil (cells : Store Datagram) (d : Datagram) :
    insertoffset ⟨cells, []⟩ d = .ok (⟨cells ++ [⟨d, none⟩], [freshEntry cells d]⟩,
      (freshEntry cells d).totalSize == (freshEntry cells d).countSize) := by
  simp only [insertoffset, addoffset, freshEntry, bind, Except.bind]

/-- On a list with entries, a datagram of another packet opens its own, unless it is a last fragment. -/
theorem insertoffset_new {s : RecvList} {d : Datagram} (hne : s.packs ≠ []) (hg : getid s.packs d.id d.src = none) :
    insertoffset s d = if islastfrag d then .error .nullDeref else
      .ok (⟨s.cells ++ [⟨d, none⟩], freshEntry s.cells d :: s.packs⟩,
        (freshEntry s.cells d).totalSize == (freshEntry s.cells d).countSize) := by
  obtain ⟨cells, packs⟩ := s
  cases packs with
  | nil => exact absurd rfl hne
  | cons x rest =>
    simp only [insertoffset, hg, addoffset, bind, Except.bind]
    cases hl : islastfrag d <;> simp [freshEntry, hl]

/-- A datagram of a packet with an entry goes to the fragments of that entry. -/
theorem insertoffset_known {s : RecvList} {d : Datagram} {e : PackLst} (hg : getid s.packs d.id d.src = some e) :
    insertoffset s d = (addoffset s.cells e.offs d).bind fun r =>
      if r.2.2 then
        .ok (⟨r.1, setEntry s.packs (grownEntry e r.2.1 d)⟩,
          (grownEntry e r.2.1 d).totalSize == (grownEntry e r.2.1 d).countSize)
      else .ok (⟨r.1, s.packs⟩, false) := by
  obtain ⟨cells, packs⟩ := s
  cases packs with
  | nil => cases hg
  | cons x rest =>
    simp only at hg
    simp only [insertoffset, hg, bind]
    rfl

end NetworkLayers
