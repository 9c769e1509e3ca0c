import VaultMarket.Proofs.Handles
import VaultMarket.Proofs.Uniqueness
set_option autoImplicit false

namespace VaultMarket

inductive Decoration where
  | profileEffect
  | theme

def Decoration.pick (d : Decoration) (profileEffect theme : Option Key) : Option Key :=
  match d with
  | .profileEffect => profileEffect
  | .theme => theme

def User.decoration (u : User) (d : Decoration) : Option Key := d.pick u.profileEffect u.theme

theorem User.decoration_decorate (u : User) (profileEffect theme : Option Key) (d : Decoration) :
    (u.decorate profileEffect theme).decoration d =
      (d.pick profileEffect theme).or (u.decoration d) := by
  cases d <;> exact Option.orElse_eq_or

namespace Instruction

def decoration? (d : Decoration) : Instruction → Option Key
  | updateProfile profileEffect theme => d.pick profileEffect theme
  | _ => none

def heir? : Instruction → Option Key
  | handOverServer next => some next
  | _ => none

end Instruction

namespace Receipt

/-- The account in this field is at `key`, and signs. -/
structure SignedBy (c : Receipt) (field : String) (key : Key) : Prop where
  signer : c.key? field = some key
  signed : c.Signed field

def target? (o : Operation) (field : String) (c : Receipt) : Option Key :=
  if c.instruction.operation = o then c.key? field else none

abbrev decorated? : Receipt → Option Key := target? .updateProfile "user_account"

abbrev foundedServer? : Receipt → Option Key := target? .createServer "server_account"

abbrev handedServer? : Receipt → Option Key := target? .handOverServer "server_account"

def decoration? (d : Decoration) (key : Key) (c : Receipt) : Option Key :=
  if c.decorated? = some key then c.instruction.decoration? d else none

def serverFounder? (key : Key) (c : Receipt) : Option Key :=
  if c.foundedServer? = some key then c.key? "signer" else none

def serverHeir? (key : Key) (c : Receipt) : Option Key :=
  if c.handedServer? = some key then c.instruction.heir? else none

variable {c : Receipt} {o : Operation} {field : String} {key : Key}

theorem target?_of_other (other : c.instruction.operation ≠ o) : c.target? o field = none :=
  if_neg other

theorem target?_ne (other : c.instruction.operation ≠ o) : c.target? o field ≠ some key := by
  rw [target?_of_other other]
  nofun

theorem decoration?_of_other {d : Decoration} (other : c.decorated? ≠ some key) :
    c.decoration? d key = none := if_neg other

theorem serverFounder?_of_other (other : c.foundedServer? ≠ some key) :
    c.serverFounder? key = none := if_neg other

theorem serverHeir?_of_other (other : c.handedServer? ≠ some key) :
    c.serverHeir? key = none := if_neg other

end Receipt

open Receipt (latest)

/-- What a call does to the handle of the profile at `key`. -/
inductive User.HandleStep (u u' : User) (key : Key) (c : Receipt) : Prop where
  | kept (same : u'.handle = u.handle)
  | made (call : c.instruction.operation = .createHandle)
      (named : c.key? "user_account" = some key) (bare : u.handle = none)
  | left (call : c.instruction.operation = .moveHandle)
      (named : c.key? "from_user_account" = some key) (signed : c.SignedBy "signer" u.authority)
      (gone : u'.handle = none)
  | came (call : c.instruction.operation = .moveHandle)
      (named : c.key? "to_user_account" = some key) (bare : u.handle = none)

structure User.Follows (u u' : User) (key : Key) (c : Receipt) : Prop where
  decoration : ∀ d, u'.decoration d = (c.decoration? d key).or (u.decoration d)
  handle : u.HandleStep u' key c

theorem User.Follows.refl {u : User} {key : Key} {c : Receipt} (other : c.decorated? ≠ some key) :
    u.Follows u key c := by
  refine ⟨fun d => ?_, .kept rfl⟩
  rw [Receipt.decoration?_of_other other, Option.none_or]

theorem User.Follows.of_handle {u : User} {key : Key} {c : Receipt} {handle : Option Key}
    (other : c.decorated? ≠ some key) (step : u.HandleStep { u with handle } key c) :
    u.Follows { u with handle } key c := by
  refine ⟨fun d => ?_, step⟩
  rw [Receipt.decoration?_of_other other, Option.none_or]
  rfl

/-- The call makes the profile at `key`, bare, for who signs it. -/
structure User.Founded (u : User) (key : Key) (c : Receipt) : Prop where
  call : c.instruction.operation = .createUser
  user : c.key? "user_account" = some key
  founder : c.SignedBy "signer" u.authority
  bare : ∀ d, u.decoration d = none

theorem User.Founded.silent {u : User} {key : Key} {c : Receipt} (h : u.Founded key c)
    (d : Decoration) : c.decoration? d key = none := by
  refine Receipt.decoration?_of_other (Receipt.target?_ne fun decorates => ?_)
  rw [h.call] at decorates
  cases decorates

section Effects

variable {before after : Records} {now : Int64} {i : Instruction} {accounts : List AccountRef}
  {k a : Key}

theorem Effect.user_origin {u' : User} (h : Effect now before i accounts after)
    (hashed : List Bytes) (held : after k = some (.user u')) :
    (∃ u, before k = some (.user u) ∧ u.Follows u' k ⟨now, i, accounts, hashed⟩) ∨
      before k = none ∧ u'.Founded k ⟨now, i, accounts, hashed⟩ := by
  by_cases other : .user ∉ i.touched
  · refine .inl ⟨u', (h.untouched (s := .user u') other).mp held, .refl ?_⟩
    refine Receipt.target?_ne fun decorates => other ?_
    cases i <;> cases decorates
    exact List.mem_cons_self
  · cases h with
    | createUser signed vacancy =>
      rcases update_eq_some.mp held with ⟨same, new⟩ | ⟨-, old⟩
      · cases new
        rw [same]
        exact .inr ⟨vacancy.free, rfl, rfl, ⟨rfl, _, rfl, signed⟩, fun d => by cases d <;> rfl⟩
      · exact .inl ⟨u', old, .refl nofun⟩
    | @updateProfile profileEffect theme signer user rest u owns =>
      left
      rcases update_eq_some.mp held with ⟨same, new⟩ | ⟨apart, old⟩
      · cases new
        rw [same]
        refine ⟨u, owns.stored, fun d => ?_, .kept rfl⟩
        have passed : Receipt.decoration? d user.key ⟨now, .updateProfile profileEffect theme,
            signer :: user :: rest, hashed⟩ = d.pick profileEffect theme := if_pos rfl
        rw [User.decoration_decorate, passed]
      · refine ⟨u', old, .refl fun named => apart ?_⟩
        exact (Option.some.inj named).symm
    | createHandle owns _ _ bare =>
      left
      rcases update_eq_some.mp held with ⟨-, new⟩ | ⟨-, held⟩
      · cases new
      · rcases update_eq_some.mp held with ⟨same, new⟩ | ⟨-, old⟩
        · cases new
          rw [same]
          exact ⟨_, owns.stored, .of_handle nofun (.made rfl rfl bare)⟩
        · exact ⟨u', old, .refl nofun⟩
    | @moveHandle signer source target handle rest s t asset owns second apart _ _ _ _ bare =>
      left
      rcases update_eq_some.mp held with ⟨-, new⟩ | ⟨-, held⟩
      · cases new
      · rcases update_eq_some.mp held with ⟨same, new⟩ | ⟨-, held⟩
        · cases new
          rw [same]
          exact ⟨t, second.stored, .of_handle nofun (.came rfl rfl bare)⟩
        · rcases update_eq_some.mp held with ⟨same, new⟩ | ⟨-, old⟩
          · cases new
            rw [same]
            have signed : Receipt.SignedBy ⟨now, .moveHandle,
                signer :: source :: target :: handle :: rest, hashed⟩ "signer" s.authority :=
              ⟨congrArg some owns.own.symm, signer, rfl, owns.signed⟩
            exact ⟨s, owns.stored, .of_handle nofun (.left rfl rfl signed rfl)⟩
          · exact ⟨u', old, .refl nofun⟩
    | _ => exact absurd (by simp [Instruction.touched]) other

theorem Effect.decorated_stored (h : Effect now before i accounts after) (hashed : List Bytes)
    (named : Receipt.decorated? ⟨now, i, accounts, hashed⟩ = some k) :
    ∃ u, before k = some (.user u) ∧
      Receipt.SignedBy ⟨now, i, accounts, hashed⟩ "signer" u.authority := by
  cases h with
  | updateProfile owns =>
    cases named
    exact ⟨_, owns.stored, congrArg some owns.own.symm, _, rfl, owns.signed⟩
  | _ => cases named

/-- An asset only leaves its owner for the authority of another profile, when its holder signs. -/
theorem Effect.asset_left {x : Asset} (h : Effect now before i accounts after)
    (hashed : List Bytes) (held : before a = some (.asset x))
    (left : ∀ x', after a = some (.asset x') → x'.owner ≠ x.owner) :
    i.operation = .moveHandle ∧ ∃ k u, before k = some (.user u) ∧ u.handle = some a ∧
      Receipt.SignedBy ⟨now, i, accounts, hashed⟩ "signer" u.authority := by
  have stayed : after a ≠ some (.asset x) := fun same => left x same rfl
  by_cases other : .asset ∉ i.touched
  · exact absurd ((h.untouched (s := .asset x) other).mpr held) stayed
  · cases h with
    | createHandle owns vacancy =>
      have apart := vacancy.ne_of_stored held
      have apart' := ne_of_kind held owns.stored nofun
      rw [Function.update_of_ne (Ne.symm apart), Function.update_of_ne apart', held] at stayed
      exact absurd rfl stayed
    | @moveHandle _ _ _ handle _ _ _ _ owns second _ asset _ holds =>
      refine ⟨rfl, ?_⟩
      have apart := ne_of_kind held owns.stored nofun
      have apart' := ne_of_kind held second.stored nofun
      by_cases same : a = handle.key
      · rw [same]
        exact ⟨_, _, owns.stored, holds, congrArg some owns.own.symm, _, rfl, owns.signed⟩
      · rw [Function.update_of_ne same, Function.update_of_ne apart',
          Function.update_of_ne apart, held] at stayed
        exact absurd rfl stayed
    | _ => exact absurd (by simp [Instruction.touched]) other

theorem Effect.server_origin {s' : Server} (h : Effect now before i accounts after)
    (hashed : List Bytes) (held : after k = some (.server s')) :
    (∃ s, before k = some (.server s) ∧
        Receipt.serverFounder? k ⟨now, i, accounts, hashed⟩ = none ∧
        s'.authority = (Receipt.serverHeir? k ⟨now, i, accounts, hashed⟩).getD s.authority) ∨
      before k = none ∧ Receipt.serverHeir? k ⟨now, i, accounts, hashed⟩ = none ∧
        Receipt.serverFounder? k ⟨now, i, accounts, hashed⟩ = some s'.authority := by
  have silent {c : Receipt} (founds : c.foundedServer? ≠ some k)
      (hands : c.handedServer? ≠ some k) :
      c.serverFounder? k = none ∧ s'.authority = (c.serverHeir? k).getD s'.authority := by
    rw [Receipt.serverHeir?_of_other hands, Option.getD_none]
    exact ⟨Receipt.serverFounder?_of_other founds, rfl⟩
  by_cases other : .server ∉ i.touched
  · refine .inl ⟨s', (h.untouched (s := .server s') other).mp held, silent ?_ ?_⟩
    · refine Receipt.target?_ne fun founds => other ?_
      cases i <;> cases founds
      exact List.mem_cons_self
    · refine Receipt.target?_ne fun hands => other ?_
      cases i <;> cases hands
      exact List.mem_cons_self
  · cases h with
    | createServer _ vacancy fresh =>
      rcases update_eq_some.mp held with ⟨same, new⟩ | ⟨apart, old⟩
      · cases new
        rw [same]
        obtain ⟨-, -, rfl⟩ := Server.fresh_eq_ok.mp fresh
        exact .inr ⟨vacancy.free, rfl, if_pos rfl⟩
      · refine .inl ⟨s', old, silent (fun named => apart ?_) nofun⟩
        exact (Option.some.inj named).symm
    | @handOverServer next signer server rest s placed =>
      left
      rcases update_eq_some.mp held with ⟨same, new⟩ | ⟨apart, old⟩
      · cases new
        rw [same]
        have heir : Receipt.serverHeir? server.key
            ⟨now, .handOverServer next, signer :: server :: rest, hashed⟩ = some next := if_pos rfl
        rw [heir]
        exact ⟨s, placed.stored, rfl, rfl⟩
      · refine ⟨s', old, silent nofun fun named => apart ?_⟩
        exact (Option.some.inj named).symm
    | _ => exact absurd (by simp [Instruction.touched]) other

theorem Effect.handed_stored (h : Effect now before i accounts after) (hashed : List Bytes)
    (named : Receipt.handedServer? ⟨now, i, accounts, hashed⟩ = some k) :
    ∃ s, before k = some (.server s) ∧
      Receipt.SignedBy ⟨now, i, accounts, hashed⟩ "signer" s.authority := by
  cases h with
  | handOverServer placed signed own =>
    cases named
    exact ⟨_, placed.stored, congrArg some own.symm, _, rfl, signed⟩
  | _ => cases named

end Effects

structure User.SameProfile (u u' : User) : Prop where
  authority : u'.authority = u.authority
  username : u'.username = u.username
  vault : u'.vault = u.vault
  bump : u'.bump = u.bump

structure Server.SameServer (s s' : Server) : Prop where
  name : s'.name = s.name
  ticker : s'.ticker = s.ticker
  theme : s'.theme = s.theme
  bump : s'.bump = s.bump

namespace Records.Retains

variable {before after : Records} {k : Key}

theorem user {u : User} (h : before.Retains after) (held : before k = some (.user u)) :
    ∃ u', after k = some (.user u') ∧ u.SameProfile u' := by
  obtain ⟨s, held', same⟩ := h k _ held
  cases s with
  | user u' =>
    have fields := Stored.user.inj same
    rw [User.mk.injEq] at fields
    obtain ⟨authority, username, -, -, -, vault, bump⟩ := fields
    exact ⟨u', held', authority, username, vault, bump⟩
  | _ => cases same

theorem server {s : Server} (h : before.Retains after) (held : before k = some (.server s)) :
    ∃ s', after k = some (.server s') ∧ s.SameServer s' := by
  obtain ⟨r, held', same⟩ := h k _ held
  cases r with
  | server s' =>
    have fields := Stored.server.inj same
    rw [Server.mk.injEq] at fields
    obtain ⟨-, name, ticker, theme, bump⟩ := fields
    exact ⟨s', held', name, ticker, theme, bump⟩
  | _ => cases same

end Records.Retains

/-- Decorations and the authorities of servers follow from the history. -/
structure MarketTrail (records : Records) (history : List Receipt) : Prop where
  decorated : ∀ {k} c, c ∈ history → c.decorated? = some k → ∃ u, records k = some (.user u)
  handed : ∀ {k} c, c ∈ history → c.handedServer? = some k → ∃ s, records k = some (.server s)
  decoration : ∀ {k u} d, records k = some (.user u) →
    u.decoration d = latest (Receipt.decoration? d k) history
  authority : ∀ {k s}, records k = some (.server s) →
    some s.authority =
      (latest (Receipt.serverHeir? k) history).or (latest (Receipt.serverFounder? k) history)

namespace MarketTrail

variable {before after : Records} {history : List Receipt} {now : Int64} {i : Instruction}
  {accounts : List AccountRef} {k : Key}

theorem empty : MarketTrail (fun _ => none) [] := ⟨nofun, nofun, nofun, nofun⟩

theorem latest_eq_none (trail : MarketTrail before history) (free : before k = none) :
    (∀ d, latest (Receipt.decoration? d k) history = none) ∧
      latest (Receipt.serverHeir? k) history = none := by
  refine ⟨fun d => Receipt.latest_eq_none.mpr fun c known => ?_,
    Receipt.latest_eq_none.mpr fun c known => ?_⟩
  · refine Receipt.decoration?_of_other fun named => ?_
    obtain ⟨u, held⟩ := trail.decorated c known named
    rw [free] at held
    cases held
  · refine Receipt.serverHeir?_of_other fun named => ?_
    obtain ⟨s, held⟩ := trail.handed c known named
    rw [free] at held
    cases held

theorem effect (trail : MarketTrail before history) (h : Effect now before i accounts after) :
    MarketTrail after (history ++ [⟨now, i, accounts, i.hashed before accounts⟩]) := by
  refine ⟨fun {k} c known named => ?_, fun {k} c known named => ?_, fun {k u'} d held => ?_,
    fun {k s'} held => ?_⟩
  · have earlier : ∃ u, before k = some (.user u) := by
      rcases List.mem_append.mp known with known | last
      · exact trail.decorated c known named
      · cases List.mem_singleton.mp last
        obtain ⟨u, held, -⟩ := h.decorated_stored _ named
        exact ⟨u, held⟩
    obtain ⟨u, held⟩ := earlier
    obtain ⟨u', held', -⟩ := h.retains.user held
    exact ⟨u', held'⟩
  · have earlier : ∃ s, before k = some (.server s) := by
      rcases List.mem_append.mp known with known | last
      · exact trail.handed c known named
      · cases List.mem_singleton.mp last
        obtain ⟨s, held, -⟩ := h.handed_stored _ named
        exact ⟨s, held⟩
    obtain ⟨s, held⟩ := earlier
    obtain ⟨s', held', -⟩ := h.retains.server held
    exact ⟨s', held'⟩
  · rw [Receipt.latest_concat]
    rcases h.user_origin (i.hashed before accounts) held with ⟨u, old, follows⟩ | ⟨free, founded⟩
    · rw [follows.decoration, trail.decoration d old]
    · rw [founded.bare, (trail.latest_eq_none free).1, founded.silent, Option.none_or]
  · rw [Receipt.latest_concat, Receipt.latest_concat]
    rcases h.server_origin (i.hashed before accounts) held with
      ⟨s, old, unfounded, authority⟩ | ⟨free, unhanded, founded⟩
    · rw [unfounded, Option.none_or, Option.or_assoc, ← trail.authority old, authority,
        Option.or_some]
    · rw [unhanded, Option.none_or, (trail.latest_eq_none free).2, Option.none_or, founded,
        Option.some_or]

theorem of_honest (steps : List Step) (honest : World.genesis.Honest steps) :
    MarketTrail (World.reached steps).ledger.records (World.genesis.receipts steps) :=
  World.history_induction (P := MarketTrail) empty (fun trail h => trail.effect h) steps honest

end MarketTrail

namespace World

variable {w : World} {s : Step} {c : Receipt} {k a : Key}

theorem effect_of_changed (fair : s.Honest w)
    (changed : (w.step s).1.ledger.records ≠ w.ledger.records) : ∃ c, w.receipt? s = some c ∧
      Effect c.now w.ledger.records c.instruction c.accounts (w.step s).1.ledger.records := by
  cases called : w.receipt? s with
  | some c => exact ⟨c, rfl, effect_of_call called⟩
  | none => exact absurd (records_of_silent fair called) changed

theorem handle_changed {u u' : User} (fair : s.Honest w)
    (held : w.ledger.records k = some (.user u))
    (held' : (w.step s).1.ledger.records k = some (.user u')) (other : u'.handle ≠ u.handle) :
    ∃ c, w.receipt? s = some c ∧ u.HandleStep u' k c := by
  have changed : (w.step s).1.ledger.records ≠ w.ledger.records := by
    intro same
    rw [same, held] at held'
    cases held'
    exact other rfl
  obtain ⟨c, called, effect⟩ := effect_of_changed fair changed
  rcases effect.user_origin c.hashed held' with ⟨u₀, old, follows⟩ | ⟨free, -⟩
  · rw [held] at old
    cases old
    exact ⟨c, called, follows.handle⟩
  · rw [held] at free
    cases free

theorem asset_left {x : Asset} (fair : s.Honest w) (held : w.ledger.records a = some (.asset x))
    (left : ∀ x', (w.step s).1.ledger.records a = some (.asset x') → x'.owner ≠ x.owner) :
    ∃ c, w.receipt? s = some c ∧ c.instruction.operation = .moveHandle ∧
      ∃ k u, w.ledger.records k = some (.user u) ∧ u.handle = some a ∧
        c.SignedBy "signer" u.authority := by
  have changed : (w.step s).1.ledger.records ≠ w.ledger.records := by
    intro same
    exact left x (same ▸ held) rfl
  obtain ⟨c, called, effect⟩ := effect_of_changed fair changed
  exact ⟨c, called, effect.asset_left c.hashed held left⟩

end World

/-- How profiles, handles and servers are governed at every point of the run. -/
structure MarketGoverned (steps : List Step) : Prop where
  profiles_last : ∀ first later k u, first <+: later → later <+: steps →
    (World.reached first).ledger.records k = some (.user u) →
    ∃ u', (World.reached later).ledger.records k = some (.user u') ∧ u.SameProfile u'
  /-- A decoration is what was last passed for it. -/
  decorated : ∀ first k u d, first <+: steps →
    (World.reached first).ledger.records k = some (.user u) →
    u.decoration d = latest (Receipt.decoration? d k) (World.genesis.receipts first)
  decorators : ∀ first s k c, first ++ [s] <+: steps →
    (World.reached first).receipt? s = some c → c.decorated? = some k →
    ∃ u, (World.reached first).ledger.records k = some (.user u) ∧ c.SignedBy "signer" u.authority
  handles_change : ∀ first s k u u', first ++ [s] <+: steps →
    (World.reached first).ledger.records k = some (.user u) →
    (World.reached (first ++ [s])).ledger.records k = some (.user u') → u'.handle ≠ u.handle →
    ∃ c, (World.reached first).receipt? s = some c ∧
      (c.instruction.operation = .createHandle ∨ c.instruction.operation = .moveHandle)
  /-- A profile loses its handle only in a call that its authority has signed. -/
  handles_leave : ∀ first s k u u', first ++ [s] <+: steps →
    (World.reached first).ledger.records k = some (.user u) → u.handle ≠ none →
    (World.reached (first ++ [s])).ledger.records k = some (.user u') → u'.handle ≠ u.handle →
    ∃ c, (World.reached first).receipt? s = some c ∧ c.instruction.operation = .moveHandle ∧
      c.SignedBy "signer" u.authority
  /-- An asset leaves its owner only in a call that the authority of its one holder has signed. -/
  assets_leave : ∀ first s a x, first ++ [s] <+: steps →
    (World.reached first).ledger.records a = some (.asset x) →
    (∀ x', (World.reached (first ++ [s])).ledger.records a = some (.asset x') →
      x'.owner ≠ x.owner) →
    ∃ c k u, (World.reached first).receipt? s = some c ∧ c.instruction.operation = .moveHandle ∧
      (World.reached first).ledger.records k = some (.user u) ∧ u.handle = some a ∧
      (∀ k', (World.reached first).ledger.records.Holds k' a → k' = k) ∧
      c.SignedBy "signer" u.authority
  servers_last : ∀ first later k v, first <+: later → later <+: steps →
    (World.reached first).ledger.records k = some (.server v) →
    ∃ v', (World.reached later).ledger.records k = some (.server v') ∧ v.SameServer v'
  /-- The authority of a server is whom it was last handed over to, or else its founder. -/
  server_authority : ∀ first k v, first <+: steps →
    (World.reached first).ledger.records k = some (.server v) →
    some v.authority = (latest (Receipt.serverHeir? k) (World.genesis.receipts first)).or
      (latest (Receipt.serverFounder? k) (World.genesis.receipts first))
  servers_handed : ∀ first s k c, first ++ [s] <+: steps →
    (World.reached first).receipt? s = some c → c.handedServer? = some k →
    ∃ v, (World.reached first).ledger.records k = some (.server v) ∧
      c.SignedBy "signer" v.authority

theorem market_governed (steps : List Step) (honest : World.genesis.Honest steps) :
    MarketGoverned steps := by
  have trail {first : List Step} (part : first <+: steps) :=
    MarketTrail.of_honest first (World.honest_of_part part honest)
  have retains {first later : List Step} (part : first <+: later) (whole : later <+: steps) :
      (World.reached first).ledger.records.Retains (World.reached later).ledger.records := by
    obtain ⟨more, rfl⟩ := part
    obtain ⟨-, rest⟩ := World.honest_append.mp (World.honest_of_part whole honest)
    rw [World.reached_append]
    exact World.later_retains more rest
  have fair {first : List Step} {s : Step} (part : first ++ [s] <+: steps) :
      s.Honest (World.reached first) :=
    (World.honest_concat.mp (World.honest_of_part part honest)).2
  refine ⟨?_, ?_, ?_, ?_, ?_, ?_, ?_, ?_, ?_⟩
  · intro first later k u part whole held
    exact (retains part whole).user held
  · intro first k u d part held
    exact (trail part).decoration d held
  · intro first s k c part called named
    exact (World.effect_of_call called).decorated_stored c.hashed named
  · intro first s k u u' part held held' other
    rw [World.reached, World.run_concat] at held'
    obtain ⟨c, called, step⟩ := World.handle_changed (fair part) held held' other
    refine ⟨c, called, ?_⟩
    cases step with
    | kept same => exact absurd same other
    | made call => exact .inl call
    | left call => exact .inr call
    | came call => exact .inr call
  · intro first s k u u' part held has held' other
    rw [World.reached, World.run_concat] at held'
    obtain ⟨c, called, step⟩ := World.handle_changed (fair part) held held' other
    refine ⟨c, called, ?_⟩
    cases step with
    | kept same => exact absurd same other
    | made _ _ bare => exact absurd bare has
    | left call _ signed => exact ⟨call, signed⟩
    | came _ _ bare => exact absurd bare has
  · intro first s a x part held left
    rw [World.reached, World.run_concat] at left
    obtain ⟨c, called, moves, k, u, profile, holds, signed⟩ :=
      World.asset_left (fair part) held left
    have before : first <+: steps := (List.prefix_append _ _).trans part
    have handles : HandlesMatch (World.reached first).ledger.records :=
      World.history_induction (P := fun records _ => HandlesMatch records) HandlesMatch.empty
        (fun inv h => inv.effect h) first (World.honest_of_part before honest)
    exact ⟨c, k, u, called, moves, profile, holds,
      fun k' other => handles.unique other ⟨u, profile, holds⟩, signed⟩
  · intro first later k v part whole held
    exact (retains part whole).server held
  · intro first k v part held
    exact (trail part).authority held
  · intro first s k c part called named
    exact (World.effect_of_call called).handed_stored c.hashed named

section Samples
open AccountRef (signing written shown)

def Step.marketDay : List Step := handleMoves ++
  [ask (.updateProfile (some (Key.filled 8)) (some (Key.filled 9)))
     [signing (Key.filled 1), written (Derivation.user "one").home],
   ask (.updateProfile none (some (Key.filled 10)))
     [signing (Key.filled 1), written (Derivation.user "one").home],
   ask (.createServer "guild" "GLD") [signing (Key.filled 1),
     written (Derivation.server "guild" "GLD").home, shown Identity.systemProgram],
   ask (.handOverServer (Key.filled 2)) [signing (Key.filled 1),
     written (Derivation.server "guild" "GLD").home],
   ask (.handOverServer (Key.filled 3)) [signing (Key.filled 1),
     written (Derivation.server "guild" "GLD").home]]

set_option maxRecDepth 100000 in
/-- Of two attempts to hand the server over, the one by its former authority fails. -/
theorem market_governed_of_market_day : World.genesis.Honest Step.marketDay ∧
    (World.genesis.receipts Step.marketDay).length = 8 ∧
    latest (Receipt.decoration? .profileEffect (Derivation.user "one").home)
      (World.genesis.receipts Step.marketDay) = some (Key.filled 8) ∧
    latest (Receipt.serverHeir? (Derivation.server "guild" "GLD").home)
      (World.genesis.receipts Step.marketDay) = some (Key.filled 2) ∧
    MarketGoverned Step.marketDay := by
  have sample : World.genesis.Honest Step.marketDay ∧
      (World.genesis.receipts Step.marketDay).length = 8 ∧
      latest (Receipt.decoration? .profileEffect (Derivation.user "one").home)
        (World.genesis.receipts Step.marketDay) = some (Key.filled 8) ∧
      latest (Receipt.serverHeir? (Derivation.server "guild" "GLD").home)
        (World.genesis.receipts Step.marketDay) = some (Key.filled 2) := by
    decide +kernel
  obtain ⟨honest, calls, decorated, handed⟩ := sample
  exact ⟨honest, calls, decorated, handed, market_governed Step.marketDay honest⟩

end Samples
end VaultMarket
