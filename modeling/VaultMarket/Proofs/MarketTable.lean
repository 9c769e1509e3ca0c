import Mathlib.Data.List.Basic
import VaultMarket.Proofs.History
import VaultMarket.Proofs.InPlace
set_option autoImplicit false

namespace VaultMarket

section Rows

variable {α β : Type} {xs : List α} {i : Nat} {a b : α}

theorem List.set_of_getElem? (row : xs[i]? = some a) : xs.set i a = xs := by
  obtain ⟨bound, rfl⟩ := List.getElem?_eq_some_iff.mp row
  exact List.set_getElem_self bound

theorem List.perm_filterMap_set {f : α → Option β} (row : xs[i]? = some a) :
    ((f a).toList ++ (xs.set i b).filterMap f).Perm ((f b).toList ++ xs.filterMap f) := by
  simp only [List.filterMap_eq_flatMap_toList]
  induction xs generalizing i with
  | nil => cases row
  | cons x xs ih =>
    cases i with
    | zero =>
      cases row
      rw [List.set_cons_zero, List.flatMap_cons, List.flatMap_cons]
      exact List.perm_append_comm_assoc _ _ _
    | succ i =>
      rw [List.set_cons_succ, List.flatMap_cons, List.flatMap_cons]
      have rest := (ih (i := i) row).append_left (f x).toList
      exact ((List.perm_append_comm_assoc _ _ _).trans rest).trans
        (List.perm_append_comm_assoc _ _ _)

theorem List.map_set_of_eq {f : α → β} (row : xs[i]? = some a) (same : f b = f a) :
    (xs.set i b).map f = xs.map f := by
  have view : (xs.map f)[i]? = some (f a) := by rw [List.getElem?_map, row, Option.map_some]
  rw [List.map_set, same, List.set_of_getElem? view]

end Rows

namespace HandleMove

variable {m m' : HandleMove} {key : Key}

def back (m : HandleMove) : HandleMove := ⟨m.asset, m.target, m.source⟩

abbrev Held (m : HandleMove) (key : Key) : Prop :=
  m.source.handle = some key ∧ m.asset.owner = m.source.authority

theorem run_of_not_held (other : ¬m.Held key) : m.run key = .error (.raised .handleMismatch) := by
  unfold run
  rw [require_of_not other]
  rfl

theorem run_of_occupied (held : m.Held key) (occupied : m.target.handle ≠ none) :
    m.run key = .error (.raised .handleAlreadyAssigned) := by
  unfold run
  rw [require_of held, require_of_not occupied]
  rfl

theorem run_of_held (held : m.Held key) (bare : m.target.handle = none) :
    m.run key = .ok ⟨{ m.asset with owner := m.target.authority },
      { m.source with handle := none }, { m.target with handle := some key }⟩ :=
  run_eq_ok.mpr ⟨held, bare, rfl⟩

/-- What a move leaves can be moved back, which leaves what there was before. -/
theorem run_back (h : m.run key = .ok m') : m'.back.run key = .ok m.back := by
  obtain ⟨⟨holds, owner⟩, bare, rfl⟩ := run_eq_ok.mp h
  obtain ⟨asset, source, target⟩ := m
  obtain ⟨_, _, _, _⟩ := asset
  obtain ⟨_, _, _, _, _, _, _⟩ := source
  obtain ⟨_, _, _, _, _, _, _⟩ := target
  cases holds
  cases owner
  cases bare
  exact run_of_held ⟨rfl, rfl⟩ rfl

/-- The move as writes to the three records. -/
def writes (key : Key) : InPlace HandleMove Unit := do
  let m ← get
  require (m.source.handle = some key ∧ m.asset.owner = m.source.authority)
    (.raised .handleMismatch)
  require (m.target.handle = none) (.raised .handleAlreadyAssigned)
  modify fun m => { m with asset := { m.asset with owner := m.target.authority } }
  modify fun m => { m with source := { m.source with handle := none } }
  modify fun m => { m with target := { m.target with handle := some key } }

theorem writes_performs (key : Key) : InPlace.Performs (writes key) (·.run key) := by
  intro m
  change writes key m = InPlace.ending m (m.run key)
  unfold writes
  rw [InPlace.get_bind]
  by_cases held : m.Held key
  · rw [InPlace.bind_done (InPlace.lift_done (require_of held))]
    by_cases bare : m.target.handle = none
    · rw [InPlace.bind_done (InPlace.lift_done (require_of bare)), run_of_held held bare]
      rfl
    · rw [InPlace.bind_failed (InPlace.lift_failed (require_of_not bare)), run_of_occupied held bare]
      rfl
  · rw [InPlace.bind_failed (InPlace.lift_failed (require_of_not held)), run_of_not_held held]
    rfl

end HandleMove

namespace Market

variable {m m' m₁ : Market} {key : Key} {asset source target : Nat} {r r' : HandleMove}

/-- The three records of a move are rows of the table. -/
structure Rows (m : Market) (asset source target : Nat) (r : HandleMove) : Prop where
  asset : m.assets[asset]? = some r.asset
  source : m.users[source]? = some r.source
  target : m.users[target]? = some r.target

def place (m : Market) (asset source target : Nat) (r : HandleMove) : Market where
  users := (m.users.set source r.source).set target r.target
  assets := m.assets.set asset r.asset

theorem Rows.act (rows : m.Rows asset source target r) (key : Key) :
    m.act (.move key asset source target) =
      (r.run key).map (m.place asset source target) := by
  unfold Market.act
  simp only [rows.asset, rows.source, rows.target]
  cases r.run key <;> rfl

theorem Rows.apart (rows : m.Rows asset source target r) (done : r.run key = .ok r') :
    source ≠ target := by
  rintro rfl
  obtain ⟨⟨holds, -⟩, bare, -⟩ := HandleMove.run_eq_ok.mp done
  have same : r.source = r.target := Option.some.inj (rows.source.symm.trans rows.target)
  rw [← same, holds] at bare
  cases bare

theorem Rows.place_back (rows : m.Rows asset source target r) (apart : source ≠ target)
    (r' : HandleMove) : (m.place asset source target r').Rows asset target source r'.back := by
  have assets := (List.getElem?_eq_some_iff.mp rows.asset).1
  have sources := (List.getElem?_eq_some_iff.mp rows.source).1
  have targets := (List.getElem?_eq_some_iff.mp rows.target).1
  refine ⟨List.getElem?_set_self assets, ?_, ?_⟩
  · exact List.getElem?_set_self (by rw [List.length_set]; exact targets)
  · change ((m.users.set source r'.source).set target r'.target)[source]? = some r'.source
    rw [List.getElem?_set_ne apart.symm, List.getElem?_set_self sources]

theorem Rows.restore (rows : m.Rows asset source target r) (apart : source ≠ target)
    (r' : HandleMove) :
    (m.place asset source target r').place asset target source r.back = m := by
  have users : (((m.users.set source r'.source).set target r'.target).set target r.target).set
      source r.source = m.users := by
    rw [List.set_set, List.set_comm _ _ apart.symm, List.set_set, List.set_of_getElem? rows.source,
      List.set_of_getElem? rows.target]
  have assets : (m.assets.set asset r'.asset).set asset r.asset = m.assets := by
    rw [List.set_set, List.set_of_getElem? rows.asset]
  obtain ⟨_, _⟩ := m
  exact congrArg₂ Market.mk users assets

theorem Rows.act_eq_ok (rows : m.Rows asset source target r) :
    m.act (.move key asset source target) = .ok m' ↔
      ∃ r', r.run key = .ok r' ∧ m.place asset source target r' = m' := by
  rw [rows.act, Except.map_eq_ok]

theorem exists_rows (h : m.act (.move key asset source target) = .ok m') :
    ∃ r, m.Rows asset source target r := by
  simp only [Market.act] at h
  split at h
  · rename_i a s t assetRow sourceRow targetRow
    exact ⟨⟨a, s, t⟩, assetRow, sourceRow, targetRow⟩
  · cases h

end Market

def User.lasting (u : User) : Key × String × Key × UInt8 :=
  (u.authority, u.username, u.vault, u.bump)

def Asset.lasting (a : Asset) : AssetKind × String × UInt8 := (a.kind, a.text, a.bump)

namespace Market

variable {m m' m₁ : Market} {a : Action} {key : Key} {asset source target : Nat} {r : HandleMove}

/-- The handles that the profiles of the table hold, each as often as it is held. -/
def held (m : Market) : List Key := m.users.filterMap User.handle

/-- The table has the same handles, profiles and assets, wherever the handles are. -/
structure Follows (m m' : Market) : Prop where
  held : m'.held.Perm m.held
  users : m'.users.map User.lasting = m.users.map User.lasting
  assets : m'.assets.map Asset.lasting = m.assets.map Asset.lasting

namespace Follows

theorem refl (m : Market) : m.Follows m := ⟨.refl _, rfl, rfl⟩

theorem trans (h : m.Follows m₁) (h' : m₁.Follows m') : m.Follows m' :=
  ⟨h'.held.trans h.held, h'.users.trans h.users, h'.assets.trans h.assets⟩

theorem decorate {user : Nat} {u : User} (row : m.users[user]? = some u)
    (profileEffect theme : Option Key) :
    m.Follows { m with users := m.users.set user (u.decorate profileEffect theme) } := by
  have same := List.perm_filterMap_set (f := User.handle) (b := u.decorate profileEffect theme) row
  exact ⟨(List.perm_append_left_iff _).mp same, List.map_set_of_eq row rfl, rfl⟩

theorem move {r' : HandleMove} (rows : m.Rows asset source target r) (done : r.run key = .ok r') :
    m.Follows (m.place asset source target r') := by
  have apart := rows.apart done
  obtain ⟨⟨holds, -⟩, bare, rfl⟩ := HandleMove.run_eq_ok.mp done
  have targetRow : (m.users.set source { r.source with handle := none })[target]? =
      some r.target := (List.getElem?_set_ne apart).trans rows.target
  have left := List.perm_filterMap_set (f := User.handle)
    (b := { r.source with handle := none }) rows.source
  have come := List.perm_filterMap_set (f := User.handle)
    (b := { r.target with handle := some key }) targetRow
  rw [holds] at left
  rw [bare] at come
  refine ⟨come.trans left, ?_, List.map_set_of_eq rows.asset rfl⟩
  have target' := List.map_set_of_eq (f := User.lasting)
    (b := { r.target with handle := some key }) targetRow rfl
  have source' := List.map_set_of_eq (f := User.lasting)
    (b := { r.source with handle := none }) rows.source rfl
  exact target'.trans source'

theorem act (h : m.act a = .ok m') : m.Follows m' := by
  cases a with
  | decorate user profileEffect theme =>
    simp only [Market.act] at h
    split at h
    · rename_i u row
      cases h
      exact decorate row profileEffect theme
    · cases h
  | move key asset source target =>
    obtain ⟨r, rows⟩ := exists_rows h
    obtain ⟨r', done, rfl⟩ := rows.act_eq_ok.mp h
    exact move rows done

theorem next (m : Market) (a : Action) : m.Follows (settle m (m.act a)) := by
  cases h : m.act a with
  | error failure => exact refl m
  | ok m' => exact act h

theorem run (m : Market) (actions : List Action) :
    m.Follows (settleAll Market.act m actions) := by
  induction actions generalizing m with
  | nil => exact refl m
  | cons a actions ih => exact (next m a).trans (ih _)

end Follows

/-- Which moves of these records succeed, how the others fail, and what undoes a move. -/
structure MoveDecided (m : Market) (key : Key) (asset source target : Nat) (r : HandleMove) :
    Prop where
  succeeds_iff : (∃ m', m.act (.move key asset source target) = .ok m') ↔
    r.source.handle = some key ∧ r.asset.owner = r.source.authority ∧ r.target.handle = none
  mismatch : ¬(r.source.handle = some key ∧ r.asset.owner = r.source.authority) →
    m.act (.move key asset source target) = .error (.raised .handleMismatch)
  occupied : r.source.handle = some key → r.asset.owner = r.source.authority →
    r.target.handle ≠ none →
    m.act (.move key asset source target) = .error (.raised .handleAlreadyAssigned)
  written : ∀ m', m.act (.move key asset source target) = .ok m' →
    ∃ r', HandleMove.writes key r = (.ok (), r') ∧ m' = m.place asset source target r'
  unwritten : ∀ failure, m.act (.move key asset source target) = .error failure →
    HandleMove.writes key r = (.error failure, r) ∧
      settle m (m.act (.move key asset source target)) = m
  reversed : ∀ m', m.act (.move key asset source target) = .ok m' →
    m'.act (.move key asset target source) = .ok m

theorem act_back (h : m.act (.move key asset source target) = .ok m') :
    m'.act (.move key asset target source) = .ok m := by
  obtain ⟨r, rows⟩ := exists_rows h
  obtain ⟨r', done, rfl⟩ := rows.act_eq_ok.mp h
  have apart := rows.apart done
  refine (rows.place_back apart r').act_eq_ok.mpr ⟨r.back, HandleMove.run_back done, ?_⟩
  exact rows.restore apart r'

theorem Rows.decided (rows : m.Rows asset source target r) (key : Key) :
    m.MoveDecided key asset source target r where
  succeeds_iff := by
    constructor
    · rintro ⟨m', h⟩
      obtain ⟨r', done, -⟩ := rows.act_eq_ok.mp h
      obtain ⟨⟨holds, owner⟩, bare, -⟩ := HandleMove.run_eq_ok.mp done
      exact ⟨holds, owner, bare⟩
    · rintro ⟨holds, owner, bare⟩
      exact ⟨_, rows.act_eq_ok.mpr ⟨_, HandleMove.run_of_held ⟨holds, owner⟩ bare, rfl⟩⟩
  mismatch other := by
    rw [rows.act, HandleMove.run_of_not_held other]
    rfl
  occupied holds owner occupied := by
    rw [rows.act, HandleMove.run_of_occupied ⟨holds, owner⟩ occupied]
    rfl
  written m' h := by
    obtain ⟨r', done, placed⟩ := rows.act_eq_ok.mp h
    exact ⟨r', (HandleMove.writes_performs key).ok_iff.mpr done, placed.symm⟩
  unwritten failure h := by
    have done : r.run key = .error failure := by
      rw [rows.act] at h
      cases run : r.run key with
      | error failure' =>
        rw [run] at h
        cases h
        rfl
      | ok r' =>
        rw [run] at h
        cases h
    exact ⟨(HandleMove.writes_performs key).error_iff.mpr ⟨done, rfl⟩, by rw [h]; rfl⟩
  reversed _ h := act_back h

/-- Whatever the table was and whatever was done to it, it has the same handles, profiles and
assets, and any move of it is decided by the three records and can be undone. -/
theorem moves_exact (start : Market) (actions : List Action) :
    start.Follows (settleAll Market.act start actions) ∧
      ∀ key asset source target r,
        (settleAll Market.act start actions).Rows asset source target r →
        (settleAll Market.act start actions).MoveDecided key asset source target r :=
  ⟨Follows.run start actions, fun key _ _ _ _ rows => rows.decided key⟩

def shared : Market where
  users := [{ (default : User) with authority := Key.filled 1, handle := some (Key.filled 9) },
    { (default : User) with authority := Key.filled 2, handle := some (Key.filled 9) },
    { (default : User) with authority := Key.filled 3 }]
  assets := [{ (default : Asset) with owner := Key.filled 2, kind := .userHandle }]

def Action.sharedMoves : List Action :=
  [.decorate 0 none (some (Key.filled 5)), .move (Key.filled 9) 0 0 2, .move (Key.filled 9) 0 1 2]

def sharedMoved : Market := settleAll Market.act shared Action.sharedMoves

/-- The profile that is not the owner cannot move the shared handle; the owner can, and the handle
comes back. -/
theorem moves_exact_of_shared :
    shared.Follows sharedMoved ∧
      sharedMoved.act (.move (Key.filled 9) 0 0 1) = .error (.raised .handleMismatch) ∧
      ∃ m', sharedMoved.act (.move (Key.filled 9) 0 2 1) = .ok m' ∧
        m'.act (.move (Key.filled 9) 0 1 2) = .ok sharedMoved := by
  obtain ⟨follows, decided⟩ := moves_exact shared Action.sharedMoves
  have first : sharedMoved.MoveDecided (Key.filled 9) 0 0 1
      ⟨sharedMoved.assets[0]!, sharedMoved.users[0]!, sharedMoved.users[1]!⟩ :=
    decided _ _ _ _ _ ⟨rfl, rfl, rfl⟩
  have second : sharedMoved.MoveDecided (Key.filled 9) 0 2 1
      ⟨sharedMoved.assets[0]!, sharedMoved.users[2]!, sharedMoved.users[1]!⟩ :=
    decided _ _ _ _ _ ⟨rfl, rfl, rfl⟩
  obtain ⟨m', moved⟩ := second.succeeds_iff.mpr (by decide +kernel)
  exact ⟨follows, first.mismatch (by decide +kernel), m', moved, second.reversed m' moved⟩

end Market
end VaultMarket
