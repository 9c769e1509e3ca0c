import VaultMarket.Proofs.Creations
import VaultMarket.Proofs.InPlace
import VaultMarket.Proofs.VaultControl
set_option autoImplicit false

namespace VaultMarket

theorem settleAll_concat {σ α : Type} (act : σ → α → Except Failure σ) (start : σ)
    (actions : List α) (a : α) : settleAll act start (actions ++ [a]) =
      settle (settleAll act start actions) (act (settleAll act start actions) a) := by
  rw [settleAll, List.foldl_concat]
  rfl

def VaultTerms.Within (t : VaultTerms) : Prop :=
  LabelWithin t.serverId 32 ∧ LabelWithin t.serverName 64

instance (t : VaultTerms) : Decidable t.Within := by
  unfold VaultTerms.Within; infer_instance

/-- What a vault of the kind may be opened with. A user vault takes anything. -/
def VaultKind.Accepts (kind : VaultKind) (terms : Option VaultTerms) : Prop :=
  kind = .user ∨ ∃ t, terms = some t ∧ t.Within

namespace Vault

section Openings

variable {kind : VaultKind} {creator : Key} {terms : Option VaultTerms} {now : Int64} {bump : UInt8}
  {v : Vault}

def initial (kind : VaultKind) (creator : Key) (terms : Option VaultTerms) (now : Int64)
    (bump : UInt8) : Vault where
  kind := kind
  creator := creator
  authority := creator
  serverId := if kind = .user then "" else (terms.getD default).serverId
  serverName := if kind = .user then "" else (terms.getD default).serverName
  createdAt := now
  modifiedAt := now
  bump := bump

theorem fresh_eq_ok_iff : fresh kind creator terms now bump = .ok v ↔
    kind.Accepts terms ∧ v = initial kind creator terms now bump := by
  simp only [fresh_eq_ok, settledTerms_eq_ok, VaultOpening.validate_eq_ok]
  constructor
  · rintro ⟨t, ⟨rfl, rfl⟩ | ⟨other, rfl, within⟩, rfl⟩
    · exact ⟨.inl rfl, rfl⟩
    · refine ⟨.inr ⟨t, rfl, within⟩, ?_⟩
      simp only [initial, if_neg other, Option.getD_some]
  · rintro ⟨rfl | ⟨t, rfl, within⟩, rfl⟩
    · exact ⟨default, .inl ⟨rfl, rfl⟩, rfl⟩
    · by_cases user : kind = .user
      · refine ⟨default, .inl ⟨user, rfl⟩, ?_⟩
        simp only [initial, if_pos user]
        rfl
      · refine ⟨t, .inr ⟨user, rfl, within⟩, ?_⟩
        simp only [initial, if_neg user, Option.getD_some]

theorem exists_fresh_error_iff : (∃ failure, fresh kind creator terms now bump = .error failure) ↔
    kind ≠ .user ∧ ∀ t, terms = some t → ¬t.Within := by
  have refused : (∃ failure, fresh kind creator terms now bump = .error failure) ↔
      ¬kind.Accepts terms := by
    cases result : fresh kind creator terms now bump with
    | error failure =>
      refine iff_of_true ⟨failure, rfl⟩ fun accepts => ?_
      rw [fresh_eq_ok_iff.mpr ⟨accepts, rfl⟩] at result
      cases result
    | ok v => exact iff_of_false nofun (not_not_intro (fresh_eq_ok_iff.mp result).1)
  rw [refused, VaultKind.Accepts, not_or, not_exists]
  simp only [not_and]

end Openings

section Writes

def freshInPlace (kind : VaultKind) (creator : Key) (terms : Option VaultTerms) (now : Int64)
    (bump : UInt8) : InPlace Vault Unit := do
  let terms ← liftM (settledTerms kind terms)
  modify ({ · with kind })
  modify ({ · with creator })
  modify ({ · with authority := creator })
  modify ({ · with serverId := terms.serverId })
  modify ({ · with serverName := terms.serverName })
  modify ({ · with createdAt := now })
  modify ({ · with modifiedAt := now })
  modify ({ · with bump })

def handOverInPlace (signer next : Key) (now : Int64) : InPlace Vault Unit := do
  let v ← get
  require (signer = v.authority)
    (.refused .invalidAuthority .raised (some (signer, v.authority)))
  modify ({ · with authority := next })
  modify ({ · with modifiedAt := now })

def actInPlace : Action → InPlace Vault Unit
  | .fresh kind creator terms now bump => freshInPlace kind creator terms now bump
  | .handOver signer next now => handOverInPlace signer next now

theorem freshInPlace_performs (kind : VaultKind) (creator : Key) (terms : Option VaultTerms)
    (now : Int64) (bump : UInt8) : InPlace.Performs (freshInPlace kind creator terms now bump)
      (fun _ => fresh kind creator terms now bump) := by
  intro v
  unfold freshInPlace fresh
  cases settled : settledTerms kind terms with
  | error failure =>
    rw [InPlace.bind_failed (InPlace.lift_failed rfl)]
    rfl
  | ok t =>
    rw [InPlace.bind_done (InPlace.lift_done rfl)]
    rfl

theorem handOverInPlace_performs (signer next : Key) (now : Int64) :
    InPlace.Performs (handOverInPlace signer next now) (·.handOver signer next now) := by
  intro v
  change handOverInPlace signer next now v = InPlace.ending v (v.handOver signer next now)
  unfold handOverInPlace handOver
  rw [InPlace.get_bind]
  by_cases own : signer = v.authority
  · rw [InPlace.bind_done (InPlace.lift_done (require_of own)), require_of own]
    rfl
  · rw [InPlace.bind_failed (InPlace.lift_failed (require_of_not own)), require_of_not own]
    rfl

theorem actInPlace_performs (a : Action) : InPlace.Performs (actInPlace a) (·.act a) := by
  cases a with
  | fresh kind creator terms now bump => exact freshInPlace_performs kind creator terms now bump
  | handOver signer next now => exact handOverInPlace_performs signer next now

def runInPlace (v : Vault) : List Action → List (Except Failure Unit × Vault)
  | [] => []
  | a :: rest => actInPlace a v :: runInPlace (actInPlace a v).2 rest

variable {v : Vault} {a : Action}

theorem snd_actInPlace : (actInPlace a v).2 = settle v (v.act a) := by
  rw [actInPlace_performs a v]
  change (InPlace.ending v (v.act a)).2 = _
  cases v.act a <;> rfl

theorem runInPlace_append (v : Vault) (actions later : List Action) :
    runInPlace v (actions ++ later) =
      runInPlace v actions ++ runInPlace (settleAll act v actions) later := by
  induction actions generalizing v with
  | nil => rfl
  | cons a rest ih =>
    rw [List.cons_append, runInPlace, runInPlace, ih, snd_actInPlace, List.cons_append]
    rfl

end Writes

section Lives

variable {start v v' origin : Vault} {a : Action} {done later : List Action}

/-- The actions of a run that succeed, in order. -/
def succeeded (v : Vault) : List Action → List Action
  | [] => []
  | a :: rest => (if (v.act a).isOk then [a] else []) ++ succeeded (settle v (v.act a)) rest

theorem succeeded_concat (v : Vault) (actions : List Action) (a : Action) :
    succeeded v (actions ++ [a]) =
      succeeded v actions ++ if ((settleAll act v actions).act a).isOk then [a] else [] := by
  induction actions generalizing v with
  | nil => exact List.append_nil _
  | cons b rest ih =>
    rw [List.cons_append, succeeded, succeeded, ih, List.append_assoc]
    rfl

def Action.transfer? : Action → Option (Key × Int64)
  | .fresh _ _ _ _ _ => none
  | .handOver _ next now => some (next, now)

/-- What has succeeded since the vault was last opened are transfers of `origin`. Before the first
opening `origin` is what the run started with. -/
inductive Life (start : Vault) : List Action → Vault → List Action → Prop where
  | unopened {later : List Action} (transfers : ∀ a ∈ later, a.transfer? ≠ none) :
      Life start later start later
  | opened {earlier later : List Action} {kind : VaultKind} {creator : Key}
      {terms : Option VaultTerms} {now : Int64} {bump : UInt8}
      (transfers : ∀ a ∈ later, a.transfer? ≠ none) :
      Life start (earlier ++ .fresh kind creator terms now bump :: later)
        (initial kind creator terms now bump) later

/-- Only transfers follow the last opening, so that there is one way to find it. -/
theorem last_opening_unique {earlier earlier' later later' : List Action} {a a' : Action}
    (opens : a.transfer? = none) (opens' : a'.transfer? = none)
    (transfers : ∀ b ∈ later, b.transfer? ≠ none) (transfers' : ∀ b ∈ later', b.transfer? ≠ none)
    (same : earlier ++ a :: later = earlier' ++ a' :: later') : a = a' ∧ later = later' := by
  rcases List.append_eq_append_iff.mp same with ⟨between, -, split⟩ | ⟨between, -, split⟩
  · cases between with
    | nil => exact List.cons_eq_cons.mp split
    | cons b between =>
      obtain ⟨-, rfl⟩ := List.cons_eq_cons.mp split
      exact absurd opens' (transfers a' (List.mem_append_right _ List.mem_cons_self))
  · cases between with
    | nil =>
      obtain ⟨same, rest⟩ := List.cons_eq_cons.mp split
      exact ⟨same.symm, rest.symm⟩
    | cons b between =>
      obtain ⟨-, rfl⟩ := List.cons_eq_cons.mp split
      exact absurd opens (transfers' a (List.mem_append_right _ List.mem_cons_self))

theorem Life.unique {origin' : Vault} {later' : List Action} (life : Life start done origin later)
    (life' : Life start done origin' later') : origin = origin' ∧ later = later' := by
  have none_opens {earlier later : List Action} {kind : VaultKind} {creator : Key}
      {terms : Option VaultTerms} {now : Int64} {bump : UInt8} :
      ¬∀ a ∈ earlier ++ .fresh kind creator terms now bump :: later, a.transfer? ≠ none :=
    fun transfers => transfers _ (List.mem_append_right _ List.mem_cons_self) rfl
  generalize same : done = done' at life'
  cases life with
  | unopened transfers =>
    cases life' with
    | unopened transfers' => exact ⟨rfl, same⟩
    | opened transfers' => exact absurd (same ▸ transfers) none_opens
  | opened transfers =>
    cases life' with
    | unopened transfers' => exact absurd (same ▸ transfers') none_opens
    | opened transfers' =>
      obtain ⟨opening, rest⟩ := last_opening_unique rfl rfl transfers transfers' same
      cases opening
      exact ⟨rfl, rest⟩

/-- Who holds the vault after the transfers, and since when. -/
def holding (origin : Vault) (later : List Action) : Key × Int64 :=
  (later.getLast?.bind Action.transfer?).getD (origin.authority, origin.modifiedAt)

structure Since (origin : Vault) (later : List Action) (v : Vault) : Prop
    extends origin.SameOrigin v where
  holding_eq : (v.authority, v.modifiedAt) = holding origin later

theorem Since.refl (v : Vault) : Since v [] v where
  toSameOrigin := .refl v
  holding_eq := rfl

theorem holding_concat (origin : Vault) (later : List Action) (signer next : Key) (now : Int64) :
    holding origin (later ++ [.handOver signer next now]) = (next, now) := by
  rw [holding, List.getLast?_concat]
  rfl

theorem Since.handOver {signer next : Key} {now : Int64} (since : Since origin later v)
    (done : v.handOver signer next now = .ok v') :
    Since origin (later ++ [.handOver signer next now]) v' := by
  obtain ⟨-, rfl⟩ := handOver_eq_ok.mp done
  refine ⟨since.toSameOrigin.trans ⟨rfl, rfl, rfl, rfl, rfl, rfl⟩, ?_⟩
  rw [holding_concat]

theorem Life.handOver {signer next : Key} {now : Int64} (life : Life start done origin later) :
    Life start (done ++ [.handOver signer next now]) origin
      (later ++ [.handOver signer next now]) := by
  have still {later : List Action} (transfers : ∀ a ∈ later, a.transfer? ≠ none) :
      ∀ a ∈ later ++ [.handOver signer next now], a.transfer? ≠ none := by
    intro a listed
    rcases List.mem_append.mp listed with before | last
    · exact transfers a before
    · cases List.mem_singleton.mp last
      exact nofun
  cases life with
  | unopened transfers => exact .unopened (still transfers)
  | opened transfers =>
    rw [List.append_assoc, List.cons_append]
    exact .opened (still transfers)

theorem exists_life_of_act (life : Life start done origin later) (since : Since origin later v)
    (acted : v.act a = .ok v') : ∃ origin' later',
      Life start (done ++ [a]) origin' later' ∧ Since origin' later' v' := by
  cases a with
  | fresh kind creator terms now bump =>
    obtain ⟨-, rfl⟩ := fresh_eq_ok_iff.mp acted
    exact ⟨_, [], .opened nofun, .refl _⟩
  | handOver signer next now => exact ⟨_, _, life.handOver, since.handOver acted⟩

/-- Wherever a run starts, the vault is what was opened last after the transfers since. -/
theorem exists_life (start : Vault) (actions : List Action) : ∃ origin later,
    Life start (succeeded start actions) origin later ∧
      Since origin later (settleAll act start actions) := by
  induction actions using List.reverseRecOn with
  | nil => exact ⟨start, [], .unopened nofun, .refl start⟩
  | append_singleton actions a ih =>
    obtain ⟨origin, later, life, since⟩ := ih
    rw [succeeded_concat, settleAll_concat]
    cases acted : (settleAll act start actions).act a with
    | error failure =>
      refine ⟨origin, later, ?_, since⟩
      rw [if_neg nofun, List.append_nil]
      exact life
    | ok v' => exact exists_life_of_act life since acted

end Lives

structure RunExact (start : Vault) (actions : List Action) (v : Vault) : Prop where
  /-- The fields are written one after another, and that leads to the same vault. -/
  reached : ∀ later, runInPlace start (actions ++ later) =
    runInPlace start actions ++ runInPlace v later
  written : ∀ a v', actInPlace a v = (.ok (), v') ↔ v.act a = .ok v'
  unwritten : ∀ a failure v', actInPlace a v = (.error failure, v') ↔
    v.act a = .error failure ∧ v' = v
  refused : ∀ kind creator terms now bump,
    (∃ failure, v.act (.fresh kind creator terms now bump) = .error failure) ↔
      kind ≠ .user ∧ ∀ t, terms = some t → ¬t.Within
  opened : ∀ kind creator terms now bump v',
    v.act (.fresh kind creator terms now bump) = .ok v' →
      v' = initial kind creator terms now bump ∧
      (if kind = .user then v'.serverId = "" ∧ v'.serverName = ""
        else ∃ t, terms = some t ∧ t.Within ∧ v'.serverId = t.serverId ∧
          v'.serverName = t.serverName)
  forgotten : ∀ kind creator terms now bump v',
    v.act (.fresh kind creator terms now bump) = .ok v' → ∀ start' actions' later,
      (runInPlace start' (actions' ++ .fresh kind creator terms now bump :: later)).drop
          actions'.length =
        runInPlace v (.fresh kind creator terms now bump :: later)
  lives : ∃ origin later, Life start (succeeded start actions) origin later
  held : ∀ origin later, Life start (succeeded start actions) origin later →
    Since origin later v ∧ ∀ signer next now,
      v.act (.handOver signer next now) =
        if signer = (holding origin later).1 then
          .ok { v with authority := next, modifiedAt := now }
        else .error (.refused .invalidAuthority .raised (some (signer, (holding origin later).1)))

section Exact

variable {kind : VaultKind} {creator signer next : Key} {terms : Option VaultTerms} {now : Int64}
  {bump : UInt8} {v v' : Vault}

theorem labels_initial (accepts : kind.Accepts terms)
    (settled : v = initial kind creator terms now bump) :
    if kind = .user then v.serverId = "" ∧ v.serverName = ""
    else ∃ t, terms = some t ∧ t.Within ∧ v.serverId = t.serverId ∧
      v.serverName = t.serverName := by
  subst settled
  by_cases user : kind = .user
  · simp only [initial, if_pos user, and_self]
  · obtain rfl | ⟨t, rfl, within⟩ := accepts
    · exact absurd rfl user
    · simp only [initial, if_neg user, Option.getD_some]
      exact ⟨t, rfl, within, rfl, rfl⟩

theorem handOver_eq_ite : v.handOver signer next now = if signer = v.authority then
    .ok { v with authority := next, modifiedAt := now }
    else .error (.refused .invalidAuthority .raised (some (signer, v.authority))) := by
  unfold handOver
  by_cases own : signer = v.authority
  · rw [require_of own, if_pos own]
    rfl
  · rw [require_of_not own, if_neg own]
    rfl

theorem actInPlace_fresh (accepts : kind.Accepts terms) (v : Vault) :
    actInPlace (.fresh kind creator terms now bump) v =
      (.ok (), initial kind creator terms now bump) :=
  (actInPlace_performs _).ok_iff.mpr (fresh_eq_ok_iff.mpr ⟨accepts, rfl⟩)

theorem runInPlace_fresh (accepts : kind.Accepts terms) (v v' : Vault) (later : List Action) :
    runInPlace v (.fresh kind creator terms now bump :: later) =
      runInPlace v' (.fresh kind creator terms now bump :: later) := by
  simp only [runInPlace, actInPlace_fresh accepts]

theorem length_runInPlace (v : Vault) (actions : List Action) :
    (runInPlace v actions).length = actions.length := by
  induction actions generalizing v with
  | nil => rfl
  | cons a rest ih => rw [runInPlace, List.length_cons, ih, List.length_cons]

end Exact

/-- Whatever a vault holds and whatever was done to it since, what the next action does is known
from the actions that succeeded. -/
theorem runs_exact (start : Vault) (actions : List Action) :
    RunExact start actions (settleAll act start actions) where
  reached later := runInPlace_append start actions later
  written a v' := (actInPlace_performs a).ok_iff
  unwritten a failure v' := (actInPlace_performs a).error_iff
  refused kind creator terms now bump := exists_fresh_error_iff
  opened kind creator terms now bump v' done := by
    obtain ⟨accepts, settled⟩ := fresh_eq_ok_iff.mp done
    exact ⟨settled, labels_initial accepts settled⟩
  forgotten kind creator terms now bump v' done start' actions' later := by
    obtain ⟨accepts, -⟩ := fresh_eq_ok_iff.mp done
    rw [runInPlace_append, List.drop_left' (length_runInPlace start' actions')]
    exact runInPlace_fresh accepts _ _ later
  lives := by
    obtain ⟨origin, later, life, -⟩ := exists_life start actions
    exact ⟨origin, later, life⟩
  held origin later life := by
    obtain ⟨origin', later', life', since⟩ := exists_life start actions
    obtain ⟨rfl, rfl⟩ := life.unique life'
    refine ⟨since, fun signer next now => ?_⟩
    rw [← since.holding_eq]
    exact handOver_eq_ite

/-- The vault is handed over twice, opened again under other terms and not handed over by its
holder from before. -/
example : (runInPlace default
    [.fresh .user (Key.filled 1) none 5 255, .handOver (Key.filled 1) (Key.filled 2) 6,
      .handOver (Key.filled 2) (Key.filled 3) 7,
      .fresh .escrow (Key.filled 4) (some ⟨"id", "name"⟩) 8 254,
      .handOver (Key.filled 3) (Key.filled 5) 9]).map (·.2.authority) =
    [Key.filled 1, Key.filled 2, Key.filled 3, Key.filled 4, Key.filled 4] := by
  decide +kernel

end Vault
end VaultMarket
