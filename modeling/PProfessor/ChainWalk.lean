import Mathlib.Tactic

set_option autoImplicit false

/-!
# Walking a chain of cells

At a place a reading finds nothing, or a value and, where the chain goes on, the place of the next
cell. Every reading happens at an instant of its own, so that what is found may change on the way.
Where each cell lies above the one before it, one chain starts at every place, and a walk with a
limit yields the values at its front.
-/
namespace PProfessor.ChainWalk

variable {α β : Type}

abbrev Cells (α β : Type) := ℕ → α → Option (β × Option α)

def walk (cells : Cells α β) : ℕ → ℕ → α → List β
  | 0, _, _ => []
  | limit + 1, clock, place =>
    match cells clock place with
    | none => []
    | some (value, none) => [value]
    | some (value, some next) => value :: walk cells limit (clock + 1) next

/-- The places and the values from a place to where the chain ends. -/
inductive Chain (cells : Cells α β) : ℕ → α → List (α × β) → Prop
  | missing {clock : ℕ} {place : α} : cells clock place = none → Chain cells clock place []
  | last {clock : ℕ} {place : α} {value : β} :
    cells clock place = some (value, none) → Chain cells clock place [(place, value)]
  | link {clock : ℕ} {place next : α} {value : β} {rest : List (α × β)} :
    cells clock place = some (value, some next) → Chain cells (clock + 1) next rest →
    Chain cells clock place ((place, value) :: rest)

namespace Chain

variable {cells : Cells α β} {clock : ℕ} {place : α} {chain : List (α × β)}

theorem unique (h : Chain cells clock place chain) {other : List (α × β)}
    (hother : Chain cells clock place other) : other = chain := by
  induction h generalizing other with
  | missing hnone =>
    cases hother with
    | missing _ => rfl
    | last hsome => cases hnone.symm.trans hsome
    | link hsome _ => cases hnone.symm.trans hsome
  | last hlast =>
    cases hother with
    | missing hnone => cases hnone.symm.trans hlast
    | last hsome =>
      cases hlast.symm.trans hsome
      rfl
    | link hsome _ => cases hlast.symm.trans hsome
  | link hlink _ ih =>
    cases hother with
    | missing hnone => cases hnone.symm.trans hlink
    | last hsome => cases hlink.symm.trans hsome
    | link hsome hrest =>
      cases hlink.symm.trans hsome
      rw [ih hrest]

theorem walk_eq (h : Chain cells clock place chain) (limit : ℕ) :
    walk cells limit clock place = (chain.map Prod.snd).take limit := by
  induction h generalizing limit with
  | missing hnone =>
    cases limit with
    | zero => rfl
    | succ limit => simp [walk, hnone]
  | last hlast =>
    cases limit with
    | zero => rfl
    | succ limit => simp [walk, hlast]
  | link hlink _ ih =>
    cases limit with
    | zero => rfl
    | succ limit => simp [walk, hlink, ih]

theorem linked (h : Chain cells clock place chain) :
    (∀ cell ∈ chain.head?, cell.1 = place) ∧
      chain.IsChain fun cell following =>
        ∃ clock, cells clock cell.1 = some (cell.2, some following.1) := by
  induction h with
  | missing _ => exact ⟨fun cell hcell => absurd hcell (by simp), .nil⟩
  | last _ => exact ⟨by simp, .singleton _⟩
  | @link clock place next value rest hlink _ ih =>
    refine ⟨by simp, ?_⟩
    cases rest with
    | nil => exact .singleton _
    | cons following rest =>
      refine .cons_cons ⟨clock, ?_⟩ ih.2
      rw [ih.1 following rfl]
      exact hlink

end Chain

section Ascending

variable {below : α → α → Prop} {cells : Cells α β}
  (hup : ∀ clock place value next, cells clock place = some (value, some next) → below place next)
include hup

theorem Chain.ascending [IsTrans α below] {clock : ℕ} {place : α} {chain : List (α × β)}
    (h : Chain cells clock place chain) :
    chain.Pairwise fun cell later => below cell.1 later.1 := by
  have : IsTrans (α × β) fun cell later => below cell.1 later.1 :=
    ⟨fun cell following later => IsTrans.trans cell.1 following.1 later.1⟩
  refine List.isChain_iff_pairwise.mp (h.linked.2.imp fun cell following hlink => ?_)
  obtain ⟨clock, hlink⟩ := hlink
  exact hup clock cell.1 cell.2 following.1 hlink

theorem exists_chain (hwf : WellFounded fun later place => below place later) (clock : ℕ)
    (place : α) : ∃ chain, Chain cells clock place chain := by
  induction place using hwf.induction generalizing clock with
  | h place ih =>
    cases hcell : cells clock place with
    | none => exact ⟨[], .missing hcell⟩
    | some cell =>
      obtain ⟨value, next⟩ := cell
      cases next with
      | none => exact ⟨[(place, value)], .last hcell⟩
      | some next =>
        obtain ⟨rest, hrest⟩ := ih next (hup clock place value next hcell) (clock + 1)
        exact ⟨(place, value) :: rest, .link hcell hrest⟩

end Ascending

end PProfessor.ChainWalk
