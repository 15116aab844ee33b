import Mathlib

/-!
# Overload matching

`SweepInvokeCandidates` and `MatchInvokeAgainst` (`ExprResolverInvokeMatch.cpp`): the closest candidate of a call, with the
own declarations before the foreign ones. The distance of a candidate is `ComputeBindingDistance` behind `TryBindArgs`;
there is none for a candidate that does not bind.
-/

namespace NLang.Compiler

structure Sweep (γ : Type) where
  best : Option (Nat × γ) := none
  ambiguous : Bool := false

section Match
variable {γ : Type} (distance : γ → Option Nat) (isOwnTu : γ → Bool)

def sweepCandidate (sweep : Sweep γ) (candidate : γ) : Sweep γ :=
  match distance candidate, sweep.best with
  | none, _ => sweep
  | some n, none => { best := some (n, candidate), ambiguous := false }
  | some n, some (nearest, best) =>
    if n < nearest then { best := some (n, candidate), ambiguous := false }
    else if n = nearest then
      if isOwnTu candidate = isOwnTu best then { sweep with ambiguous := true }
      else if isOwnTu candidate then { best := some (n, candidate), ambiguous := false }
      else sweep
    else sweep

def sweepInvokeCandidates (candidates : List γ) : Sweep γ := candidates.foldl (sweepCandidate distance isOwnTu) {}

def matchInvokeAgainst (candidates : List γ) : Option γ :=
  let sweep := sweepInvokeCandidates distance isOwnTu candidates
  if sweep.ambiguous then none else sweep.best.map (·.2)

structure Nearest (seen : List γ) (n : Nat) (best : γ) : Prop where
  member : best ∈ seen
  graded : distance best = some n
  least : ∀ other ∈ seen, ∀ d, distance other = some d → n ≤ d
  ownFirst : ∀ other ∈ seen, distance other = some n → isOwnTu other = true → isOwnTu best = true

def Alone (seen : List γ) (n : Nat) (best : γ) : Prop :=
  ∃ before after, seen = before ++ best :: after ∧
    ∀ other ∈ before ++ after, distance other = some n → isOwnTu best = true ∧ isOwnTu other = false

structure SweepHolds (seen : List γ) (sweep : Sweep γ) : Prop where
  unbound : sweep.best = none → ∀ other ∈ seen, distance other = none
  nearest : ∀ n best, sweep.best = some (n, best) → Nearest distance isOwnTu seen n best
  alone : ∀ n best, sweep.best = some (n, best) → sweep.ambiguous = false → Alone distance isOwnTu seen n best

variable {distance isOwnTu} {seen : List γ} {sweep : Sweep γ} {candidate best : γ} {n nearest : Nat}

theorem SweepHolds.renew (graded : distance candidate = some n) (farther : ∀ other ∈ seen, ∀ d, distance other = some d → n ≤ d)
    (apart : ∀ other ∈ seen, distance other = some n → isOwnTu candidate = true ∧ isOwnTu other = false) :
    SweepHolds distance isOwnTu (seen ++ [candidate]) { best := some (n, candidate), ambiguous := false } := by
  refine ⟨nofun, ?_, ?_⟩
  · rintro _ _ ⟨⟩
    refine ⟨by simp, graded, ?_, ?_⟩
    · intro other member d same
      rcases List.mem_append.mp member with before | last
      · exact farther other before d same
      · cases List.mem_singleton.mp last
        exact Nat.le_of_eq (Option.some.inj (graded.symm.trans same))
    · intro other member same own
      rcases List.mem_append.mp member with before | last
      · exact (apart other before same).1
      · cases List.mem_singleton.mp last
        exact own
  · rintro _ _ ⟨⟩ -
    refine ⟨seen, [], rfl, ?_⟩
    rw [List.append_nil]
    exact apart

theorem SweepHolds.keep {ambiguous : Bool} (holds : SweepHolds distance isOwnTu seen sweep) (isBest : sweep.best = some (nearest, best))
    (farther : ∀ d, distance candidate = some d → nearest ≤ d)
    (own : distance candidate = some nearest → isOwnTu candidate = true → isOwnTu best = true)
    (apart : ambiguous = false → sweep.ambiguous = false ∧
      (distance candidate = some nearest → isOwnTu best = true ∧ isOwnTu candidate = false)) :
    SweepHolds distance isOwnTu (seen ++ [candidate]) { best := sweep.best, ambiguous } := by
  have kept := holds.nearest _ _ isBest
  refine ⟨fun absent => (nomatch absent.symm.trans isBest), ?_, ?_⟩
  · intro n other same
    cases isBest.symm.trans same
    refine ⟨List.mem_append_left _ kept.member, kept.graded, ?_, ?_⟩
    · intro other member d graded
      rcases List.mem_append.mp member with before | last
      · exact kept.least other before d graded
      · cases List.mem_singleton.mp last
        exact farther d graded
    · intro other member graded isOwn
      rcases List.mem_append.mp member with before | last
      · exact kept.ownFirst other before graded isOwn
      · cases List.mem_singleton.mp last
        exact own graded isOwn
  · intro n other same unique
    cases isBest.symm.trans same
    obtain ⟨before, after, rfl, others⟩ := holds.alone _ _ isBest (apart unique).1
    refine ⟨before, after ++ [candidate], by simp, ?_⟩
    intro other member graded
    rw [← List.append_assoc] at member
    rcases List.mem_append.mp member with earlier | last
    · exact others other earlier graded
    · cases List.mem_singleton.mp last
      exact (apart unique).2 graded

theorem sweepCandidate_holds (holds : SweepHolds distance isOwnTu seen sweep) (candidate : γ) :
    SweepHolds distance isOwnTu (seen ++ [candidate]) (sweepCandidate distance isOwnTu sweep candidate) := by
  unfold sweepCandidate
  split
  · rename_i unbound
    cases isBest : sweep.best with
    | none =>
      refine ⟨fun _ other member => ?_, fun _ _ same => (nomatch isBest.symm.trans same), fun _ _ same => (nomatch isBest.symm.trans same)⟩
      rcases List.mem_append.mp member with before | last
      · exact holds.unbound isBest other before
      · cases List.mem_singleton.mp last
        exact unbound
    | some pair =>
      exact holds.keep isBest (fun _ same => nomatch unbound.symm.trans same) (fun same => nomatch unbound.symm.trans same)
        fun unique => ⟨unique, fun same => nomatch unbound.symm.trans same⟩
  · rename_i n graded isBest
    refine .renew graded (fun other member d same => ?_) fun other member same => ?_
    · cases (holds.unbound isBest other member).symm.trans same
    · cases (holds.unbound isBest other member).symm.trans same
  · rename_i n nearest best graded isBest
    have kept := holds.nearest _ _ isBest
    have this_one {d : Nat} (same : distance candidate = some d) : n = d := Option.some.inj (graded.symm.trans same)
    split
    · rename_i closer
      refine .renew graded (fun other member d same => ?_) fun other member same => ?_
      · exact Nat.le_trans (Nat.le_of_lt closer) (kept.least other member d same)
      · exact absurd (kept.least other member n same) (Nat.not_le.mpr closer)
    · rename_i notCloser
      split
      · rename_i equal
        subst equal
        split
        · rename_i alike
          exact holds.keep isBest (fun d same => Nat.le_of_eq (this_one same)) (fun _ own => alike ▸ own) nofun
        · rename_i unlike
          split
          · rename_i own
            refine .renew graded kept.least fun other member same => ⟨own, ?_⟩
            by_contra isOwn
            exact unlike (own.trans (kept.ownFirst other member same (by simpa using isOwn)).symm)
          · rename_i foreign
            have ownBest : isOwnTu best = true := by
              cases h : isOwnTu best with
              | true => rfl
              | false => exact absurd ((by simpa using foreign : isOwnTu candidate = false).trans h.symm) unlike
            exact holds.keep isBest (fun d same => Nat.le_of_eq (this_one same)) (fun _ _ => ownBest)
              fun unique => ⟨unique, fun _ => ⟨ownBest, by simpa using foreign⟩⟩
      · rename_i farther
        exact holds.keep isBest (fun d same => this_one same ▸ Nat.not_lt.mp notCloser) (fun same => absurd (this_one same) farther)
          fun unique => ⟨unique, fun same => absurd (this_one same) farther⟩

theorem foldl_sweepCandidate_holds {more : List γ} (holds : SweepHolds distance isOwnTu seen sweep) :
    SweepHolds distance isOwnTu (seen ++ more) (more.foldl (sweepCandidate distance isOwnTu) sweep) := by
  induction more generalizing seen sweep with
  | nil => rwa [List.append_nil]
  | cons candidate more ih =>
    have step := ih (sweepCandidate_holds holds candidate)
    rwa [List.append_assoc] at step

theorem sweepInvokeCandidates_holds (candidates : List γ) :
    SweepHolds distance isOwnTu candidates (sweepInvokeCandidates distance isOwnTu candidates) := by
  have fresh : SweepHolds distance isOwnTu [] {} := ⟨nofun, nofun, nofun⟩
  exact foldl_sweepCandidate_holds fresh

theorem matchInvokeAgainst_closest {candidates : List γ} (found : matchInvokeAgainst distance isOwnTu candidates = some best) :
    ∃ n before after, candidates = before ++ best :: after ∧ distance best = some n ∧ ∀ other ∈ before ++ after, ∀ d,
      distance other = some d → n < d ∨ isOwnTu best = true ∧ isOwnTu other = false := by
  have holds := @sweepInvokeCandidates_holds _ distance isOwnTu candidates
  unfold matchInvokeAgainst at found
  dsimp only at found
  split at found
  · cases found
  · rename_i unique
    obtain ⟨⟨n, _⟩, isBest, rfl⟩ := Option.map_eq_some_iff.mp found
    have kept := holds.nearest _ _ isBest
    obtain ⟨before, after, same, others⟩ := holds.alone _ _ isBest (by simpa using unique)
    refine ⟨n, before, after, same, kept.graded, fun other member d graded => ?_⟩
    have inAll : other ∈ candidates := by
      rw [same]
      rcases List.mem_append.mp member with front | back
      · exact List.mem_append_left _ front
      · exact List.mem_append_right _ (.tail _ back)
    rcases Nat.eq_or_lt_of_le (kept.least other inAll d graded) with equal | closer
    · exact .inr (others other member (equal ▸ graded))
    · exact .inl closer

theorem foldl_sweepCandidate_kept {more : List γ} (isBest : sweep.best = some (n, best))
    (farther : ∀ other ∈ more, ∀ d, distance other = some d → n < d) : more.foldl (sweepCandidate distance isOwnTu) sweep = sweep := by
  induction more with
  | nil => rfl
  | cons candidate more ih =>
    have step : sweepCandidate distance isOwnTu sweep candidate = sweep := by
      unfold sweepCandidate
      rw [isBest]
      cases graded : distance candidate with
      | none => rfl
      | some d =>
        have behind := farther candidate (.head _) d graded
        dsimp only
        rw [if_neg (by omega), if_neg (by omega)]
    rw [List.foldl_cons, step]
    exact ih fun other member => farther other (.tail _ member)

theorem matchInvokeAgainst_of_closest {before after : List γ} (graded : distance best = some n)
    (farther : ∀ other ∈ before ++ after, ∀ d, distance other = some d → n < d) :
    matchInvokeAgainst distance isOwnTu (before ++ best :: after) = some best := by
  have holds := @sweepInvokeCandidates_holds _ distance isOwnTu before
  have renewed : sweepCandidate distance isOwnTu (sweepInvokeCandidates distance isOwnTu before) best =
      { best := some (n, best), ambiguous := false } := by
    unfold sweepCandidate
    rw [graded]
    cases isBest : (sweepInvokeCandidates distance isOwnTu before).best with
    | none => rfl
    | some pair =>
      obtain ⟨n', other⟩ := pair
      have kept := holds.nearest _ _ isBest
      exact if_pos (farther other (List.mem_append_left _ kept.member) n' kept.graded)
  have ended : after.foldl (sweepCandidate distance isOwnTu) { best := some (n, best), ambiguous := false } =
      { best := some (n, best), ambiguous := false } :=
    foldl_sweepCandidate_kept rfl fun other member => farther other (List.mem_append_right _ member)
  unfold matchInvokeAgainst
  have whole : sweepInvokeCandidates distance isOwnTu (before ++ best :: after) = { best := some (n, best), ambiguous := false } := by
    rw [sweepInvokeCandidates, List.foldl_append, List.foldl_cons]
    exact (congrArg (List.foldl _ · after) renewed).trans ended
  rw [whole]
  rfl

theorem matchInvokeAgainst_narrowed {candidates fewer : List γ} {isOwn : γ → Bool}
    (found : matchInvokeAgainst distance isOwnTu candidates = some best) (nodup : fewer.Nodup) (here : best ∈ fewer)
    (within : ∀ other ∈ fewer, other ∈ candidates ∧ isOwnTu other = isOwnTu best) :
    matchInvokeAgainst distance isOwn fewer = some best := by
  obtain ⟨n, before, after, rfl, graded, farther⟩ := matchInvokeAgainst_closest found
  obtain ⟨front, back, rfl⟩ := List.append_of_mem here
  refine matchInvokeAgainst_of_closest graded fun other member d same => ?_
  have apart : best ∉ front ++ back := (List.nodup_middle.mp nodup).notMem
  have inFewer : other ∈ front ++ best :: back := by
    rcases List.mem_append.mp member with inFront | inBack
    · exact List.mem_append_left _ inFront
    · exact List.mem_append_right _ (.tail _ inBack)
  obtain ⟨inAll, alike⟩ := within other inFewer
  have other_ne : other ≠ best := fun equal => apart (equal ▸ member)
  have rest : other ∈ before ++ after := by
    rcases List.mem_append.mp inAll with inFront | inBack
    · exact List.mem_append_left _ inFront
    · exact List.mem_append_right _ ((List.mem_cons.mp inBack).resolve_left other_ne)
  rcases farther other rest d same with closer | ⟨own, foreign⟩
  · exact closer
  · cases (own.symm.trans alike.symm).trans foreign

inductive Outcome (γ : Type) where
  | chosen (candidate : γ) | ambiguous | incompatible

def Sweep.outcome (sweep : Sweep γ) : Outcome γ :=
  match sweep.best with
  | none => .incompatible
  | some (_, best) => if sweep.ambiguous then .ambiguous else .chosen best

variable (distance isOwnTu) in
def invokeOutcome (candidates : List γ) : Outcome γ := (sweepInvokeCandidates distance isOwnTu candidates).outcome

variable (distance) in
def ctorCandidate (sweep : Sweep γ) (candidate : γ) : Sweep γ :=
  match distance candidate, sweep.best with
  | none, _ => sweep
  | some n, none => { best := some (n, candidate), ambiguous := false }
  | some n, some (nearest, _) =>
    if n < nearest then { best := some (n, candidate), ambiguous := false }
    else if n = nearest then { sweep with ambiguous := true }
    else sweep

variable (distance) in
def matchCtorAgainst (candidates : List γ) : Outcome γ := (candidates.foldl (ctorCandidate distance) {}).outcome

variable (distance isOwnTu) in
def Outranks (candidate other : γ) : Prop :=
  ∀ d, distance other = some d → ∃ n, distance candidate = some n ∧
    (n < d ∨ n = d ∧ isOwnTu candidate = true ∧ isOwnTu other = false)

variable (distance isOwnTu) in
def Leads (candidates : List γ) (leader : γ) : Prop :=
  (∃ n, distance leader = some n) ∧
    ∃ rest, candidates.Perm (leader :: rest) ∧ ∀ other ∈ rest, Outranks distance isOwnTu leader other

theorem matchCtorAgainst_eq (candidates : List γ) :
    matchCtorAgainst distance candidates = invokeOutcome distance (fun _ => true) candidates := by
  have step : ctorCandidate distance = sweepCandidate distance fun _ => true := by
    funext sweep candidate
    unfold ctorCandidate sweepCandidate
    cases distance candidate with
    | none => rfl
    | some n => cases sweep.best <;> rfl
  rw [matchCtorAgainst, step]
  rfl

variable (distance isOwnTu) in
def Tied (seen : List γ) (sweep : Sweep γ) : Prop :=
  sweep.ambiguous = true → ∀ n best, sweep.best = some (n, best) →
    ∃ other rest, seen.Perm (best :: other :: rest) ∧ distance other = some n ∧ isOwnTu other = isOwnTu best

theorem Tied.more (tied : Tied distance isOwnTu seen sweep) (candidate : γ) :
    Tied distance isOwnTu (seen ++ [candidate]) sweep := by
  intro ambiguous n best isBest
  obtain ⟨other, rest, perm, graded, alike⟩ := tied ambiguous n best isBest
  exact ⟨other, rest ++ [candidate], perm.append_right [candidate], graded, alike⟩

theorem sweepCandidate_tied (holds : SweepHolds distance isOwnTu seen sweep) (tied : Tied distance isOwnTu seen sweep)
    (candidate : γ) : Tied distance isOwnTu (seen ++ [candidate]) (sweepCandidate distance isOwnTu sweep candidate) := by
  unfold sweepCandidate
  split
  · exact tied.more candidate
  · exact nofun
  · rename_i n nearest best graded isBest
    split
    · exact nofun
    split
    · rename_i equal
      split
      · rename_i alike
        intro _ m other same
        cases isBest.symm.trans same
        obtain ⟨before, after, rfl⟩ := List.append_of_mem (holds.nearest _ _ isBest).member
        refine ⟨candidate, before ++ after, ?_, equal ▸ graded, alike⟩
        have front : (before ++ best :: after ++ [candidate]).Perm (best :: (before ++ after) ++ [candidate]) :=
          List.perm_middle.append_right _
        exact front.trans ((List.perm_append_singleton candidate (before ++ after)).cons best)
      · split
        · exact nofun
        · exact tied.more candidate
    · exact tied.more candidate

theorem foldl_sweepCandidate_tied {more : List γ} (holds : SweepHolds distance isOwnTu seen sweep)
    (tied : Tied distance isOwnTu seen sweep) :
    Tied distance isOwnTu (seen ++ more) (more.foldl (sweepCandidate distance isOwnTu) sweep) := by
  induction more generalizing seen sweep with
  | nil => rwa [List.append_nil]
  | cons candidate more ih =>
    have step := ih (sweepCandidate_holds holds candidate) (sweepCandidate_tied holds tied candidate)
    rwa [List.append_assoc] at step

theorem sweepInvokeCandidates_tied (candidates : List γ) :
    Tied distance isOwnTu candidates (sweepInvokeCandidates distance isOwnTu candidates) := by
  have fresh : SweepHolds distance isOwnTu [] {} := ⟨nofun, nofun, nofun⟩
  exact foldl_sweepCandidate_tied fresh nofun

theorem invokeOutcome_of_leads {candidates : List γ} {leader : γ} (leads : Leads distance isOwnTu candidates leader) :
    invokeOutcome distance isOwnTu candidates = .chosen leader := by
  obtain ⟨⟨m, viable⟩, rest, perm, ahead⟩ := leads
  have holds := @sweepInvokeCandidates_holds _ distance isOwnTu candidates
  have tied := @sweepInvokeCandidates_tied _ distance isOwnTu candidates
  have here : leader ∈ candidates := perm.mem_iff.mpr (.head _)
  rw [invokeOutcome, Sweep.outcome]
  cases isBest : (sweepInvokeCandidates distance isOwnTu candidates).best with
  | none => cases (holds.unbound isBest leader here).symm.trans viable
  | some pair =>
    obtain ⟨n, best⟩ := pair
    have kept := holds.nearest _ _ isBest
    have isLeader : best = leader := by
      rcases List.mem_cons.mp (perm.mem_iff.mp kept.member) with same | behind
      · exact same
      · obtain ⟨n', graded, closer | ⟨rfl, own, foreign⟩⟩ := ahead best behind n kept.graded
        · exact absurd (kept.least leader here n' graded) (Nat.not_le.mpr closer)
        · cases (kept.ownFirst leader here graded own).symm.trans foreign
    subst isLeader
    dsimp only
    split
    · rename_i ambiguous
      obtain ⟨other, rest', perm', graded, alike⟩ := tied ambiguous n best isBest
      have behind : other ∈ rest := (perm.symm.trans perm').cons_inv.mem_iff.mpr (.head _)
      obtain ⟨n', same, closer | ⟨-, own, foreign⟩⟩ := ahead other behind n graded
      · cases kept.graded.symm.trans same
        exact absurd closer (Nat.lt_irrefl _)
      · cases (alike.trans own).symm.trans foreign
    · rfl

theorem leads_of_invokeOutcome {candidates : List γ} {leader : γ}
    (found : invokeOutcome distance isOwnTu candidates = .chosen leader) : Leads distance isOwnTu candidates leader := by
  have holds := @sweepInvokeCandidates_holds _ distance isOwnTu candidates
  rw [invokeOutcome, Sweep.outcome] at found
  cases isBest : (sweepInvokeCandidates distance isOwnTu candidates).best with
  | none =>
    rw [isBest] at found
    cases found
  | some pair =>
    obtain ⟨n, best⟩ := pair
    rw [isBest] at found
    dsimp only at found
    split at found
    · cases found
    · rename_i unique
      cases found
      have kept := holds.nearest _ _ isBest
      obtain ⟨before, after, same, others⟩ := holds.alone _ _ isBest (by simpa using unique)
      have perm : candidates.Perm (leader :: (before ++ after)) := same ▸ List.perm_middle
      refine ⟨⟨n, kept.graded⟩, before ++ after, perm, fun other member d viable => ⟨n, kept.graded, ?_⟩⟩
      rcases Nat.eq_or_lt_of_le (kept.least other (perm.mem_iff.mpr (.tail _ member)) d viable) with equal | closer
      · exact .inr ⟨equal, others other member (equal ▸ viable)⟩
      · exact .inl closer

theorem invokeOutcome_chosen_iff {candidates : List γ} {leader : γ} :
    invokeOutcome distance isOwnTu candidates = .chosen leader ↔ Leads distance isOwnTu candidates leader :=
  ⟨leads_of_invokeOutcome, invokeOutcome_of_leads⟩

theorem invokeOutcome_incompatible_iff {candidates : List γ} :
    invokeOutcome distance isOwnTu candidates = .incompatible ↔ ∀ candidate ∈ candidates, distance candidate = none := by
  have holds := @sweepInvokeCandidates_holds _ distance isOwnTu candidates
  rw [invokeOutcome, Sweep.outcome]
  cases isBest : (sweepInvokeCandidates distance isOwnTu candidates).best with
  | none => exact iff_of_true rfl (holds.unbound isBest)
  | some pair =>
    have kept := holds.nearest pair.1 pair.2 isBest
    refine iff_of_false (fun found => ?_) fun unbound => ?_
    · dsimp only at found
      split at found <;> cases found
    · cases (unbound _ kept.member).symm.trans kept.graded

theorem Leads.perm {order candidates : List γ} {leader : γ} (leads : Leads distance isOwnTu candidates leader)
    (same : order.Perm candidates) : Leads distance isOwnTu order leader := by
  obtain ⟨viable, rest, perm, ahead⟩ := leads
  exact ⟨viable, rest, same.trans perm, ahead⟩

theorem invokeOutcome_perm {order candidates : List γ} (same : order.Perm candidates) :
    invokeOutcome distance isOwnTu order = invokeOutcome distance isOwnTu candidates := by
  have unbound : (∀ candidate ∈ order, distance candidate = none) ↔ ∀ candidate ∈ candidates, distance candidate = none :=
    forall_congr' fun _ => imp_congr_left same.mem_iff
  cases found : invokeOutcome distance isOwnTu candidates with
  | chosen leader => exact invokeOutcome_of_leads ((leads_of_invokeOutcome found).perm same)
  | incompatible => exact invokeOutcome_incompatible_iff.mpr (unbound.mpr (invokeOutcome_incompatible_iff.mp found))
  | ambiguous =>
    cases found' : invokeOutcome distance isOwnTu order with
    | chosen leader =>
      have leads := (leads_of_invokeOutcome found').perm same.symm
      cases found.symm.trans (invokeOutcome_of_leads leads)
    | incompatible =>
      have none := unbound.mp (invokeOutcome_incompatible_iff.mp found')
      cases found.symm.trans (invokeOutcome_incompatible_iff.mpr none)
    | ambiguous => rfl

theorem invokeOutcome_pair {candidate other : γ} : invokeOutcome distance isOwnTu [candidate, other] = .chosen candidate ↔
    (∃ n, distance candidate = some n) ∧ Outranks distance isOwnTu candidate other := by
  rw [invokeOutcome_chosen_iff]
  constructor
  · rintro ⟨viable, rest, perm, ahead⟩
    have single : rest = [other] := (List.singleton_perm.mp perm.cons_inv).symm
    exact ⟨viable, ahead other (single ▸ .head _)⟩
  · rintro ⟨viable, ahead⟩
    refine ⟨viable, [other], .refl _, fun another member => ?_⟩
    rw [List.mem_singleton.mp member]
    exact ahead

theorem outranks_iff_pair {candidate other : γ} (differ : candidate ≠ other) :
    Outranks distance isOwnTu candidate other ↔ invokeOutcome distance isOwnTu [candidate, other] ≠ .chosen other ∧
      invokeOutcome distance isOwnTu [candidate, other] ≠ .ambiguous := by
  constructor
  · intro ahead
    by_cases viable : ∃ n, distance candidate = some n
    · rw [invokeOutcome_pair.mpr ⟨viable, ahead⟩]
      exact ⟨fun same => differ (Outcome.chosen.inj same), nofun⟩
    · have unbound : ∀ one ∈ [candidate, other], distance one = none := by
        intro one member
        cases graded : distance one with
        | none => rfl
        | some d =>
          rcases List.mem_cons.mp member with rfl | member
          · exact absurd ⟨d, graded⟩ viable
          · obtain ⟨n, near, -⟩ := ahead d (List.mem_singleton.mp member ▸ graded)
            exact absurd ⟨n, near⟩ viable
      rw [invokeOutcome_incompatible_iff.mpr unbound]
      exact ⟨nofun, nofun⟩
  · rintro ⟨notBeaten, notTied⟩
    cases found : invokeOutcome distance isOwnTu [candidate, other] with
    | chosen leader =>
      have leads := leads_of_invokeOutcome found
      obtain ⟨-, rest, perm, -⟩ := leads
      rcases List.mem_cons.mp (perm.mem_iff.mpr (.head _)) with rfl | isOther
      · exact (invokeOutcome_pair.mp found).2
      · exact absurd (List.mem_singleton.mp isOther ▸ found) notBeaten
    | ambiguous => exact absurd found notTied
    | incompatible =>
      intro d viable
      cases (invokeOutcome_incompatible_iff.mp found other (.tail _ (.head _))).symm.trans viable

theorem Outranks.not_chosen {candidates : List γ} {candidate other : γ} (ahead : Outranks distance isOwnTu candidate other)
    (here : candidate ∈ candidates) (differ : candidate ≠ other) :
    invokeOutcome distance isOwnTu candidates ≠ .chosen other := by
  intro found
  obtain ⟨⟨d, viable⟩, rest, perm, behind⟩ := leads_of_invokeOutcome found
  have member : candidate ∈ rest := (List.mem_cons.mp (perm.mem_iff.mp here)).resolve_left differ
  obtain ⟨n, graded, order⟩ := ahead d viable
  obtain ⟨d', viable', order'⟩ := behind candidate member n graded
  cases viable.symm.trans viable'
  rcases order with closer | ⟨rfl, own, foreign⟩ <;> rcases order' with closer' | ⟨same, own', foreign'⟩
  · exact absurd closer' (Nat.lt_asymm closer)
  · exact absurd closer (same ▸ Nat.lt_irrefl _)
  · exact absurd closer' (Nat.lt_irrefl _)
  · cases own.symm.trans foreign'

end Match

end NLang.Compiler
