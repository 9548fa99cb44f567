import StackMigrate.Properties.ScopeGuardrail
import StackMigrate.Sandbox.Batches
import StackMigrate.Services.RepoPrep

/-!
# A run is started once, on its own workspace

Celery delivers a job again when its worker has not acknowledged it. Nothing in the worker asks
whether the run has been worked on before; what keeps a second delivery from starting the graph
again is that `git` does not clone into a directory that holds something. So the source
checkout is a token that the deliveries of a run compete for.
-/

namespace StackMigrate

open FileSystem

variable {α : Type} {cloneFrom : CloneFrom α} {root : Location} {deliveries : List Delivery}
  {delivery : Delivery} {fs fs' : FileSystem} {answer : α} {place place' : Preparing}
  {dest loc q : Location} {checkout : Checkout} {runId : String}

/-! ### Paths of the work directory -/

theorem goesOn_toPath (hproper : loc.IsProper) (hne : loc ≠ []) : GoesOn loc.toPath := by
  obtain ⟨init, last, rfl⟩ := (List.eq_nil_or_concat loc).resolve_left hne
  have hlast : IsName last := hproper last (by simp)
  rw [List.concat_eq_append, Location.toPath]
  by_cases hinit : init = []
  · simpa [hinit] using goesOn_append hlast "/"
  · have hjoin : "/" ++ String.intercalate "/" (init ++ [last]) =
        "/" ++ String.intercalate "/" init ++ "/" ++ last := by
      rw [String.intercalate_append_of_ne_nil hinit (by simp)]
      simp [String.append_assoc]
    rw [hjoin]
    exact goesOn_append hlast _

/-- Joining a relative path goes on with its segments. -/
theorem joinRelative_toPath (hproper : loc.IsProper) (hne : loc ≠ []) (path : String) :
    joinRelative loc.toPath path = Location.toPath (loc ++ splitOnChar path '/') := by
  have hsegments : splitOnChar path '/' ≠ [] := by
    simp [splitOnChar]
  rw [joinRelative_of_goesOn (goesOn_toPath hproper hne), Location.toPath, Location.toPath,
    String.intercalate_append_of_ne_nil hne hsegments, intercalate_splitOnChar]
  simp [String.append_assoc]

theorem joinRelative_toPath_name (hproper : loc.IsProper) (hne : loc ≠ []) {name : String}
    (hname : IsName name) : joinRelative loc.toPath name = Location.toPath (loc ++ [name]) := by
  rw [joinRelative_toPath hproper hne, splitOnChar_of_notMem hname.2.2.2]

theorem openAndWrite_toPath (hproper : loc.IsProper) (hne : loc ≠ []) (content : String) :
    openAndWrite fs loc.toPath content = fs.writeFile loc content := by
  rw [openAndWrite, if_pos loc.startsWith_toPath, hproper.splitOnChar_toPath hne, List.nil_append,
    writeFile, writeFile, target?_cons_empty]

/-- Where the checkouts of a run are. -/
def checkoutAt (root : Location) (runId : String) (checkout : Checkout) : Location :=
  root ++ [runId, checkout.name]

theorem isName_checkout (checkout : Checkout) : IsName checkout.name := by
  cases checkout <;> simp [IsName, Checkout.name]

theorem isProper_checkoutAt (hroot : root.IsProper) (hname : IsName runId) (checkout : Checkout) :
    (checkoutAt root runId checkout).IsProper := by
  refine hroot.append fun name hmem => ?_
  rcases List.mem_pair.mp hmem with rfl | rfl
  · exact hname
  · exact isName_checkout checkout

theorem checkoutPath_eq (hroot : root.IsProper) (hne : root ≠ []) (hname : IsName runId)
    (checkout : Checkout) :
    checkoutPath root.toPath runId checkout = (checkoutAt root runId checkout).toPath := by
  have hrun : Location.IsProper (root ++ [runId]) :=
    hroot.append fun name hmem => List.mem_singleton.mp hmem ▸ hname
  rw [checkoutPath, joinRelative_toPath_name hroot hne hname,
    joinRelative_toPath_name hrun (by simp) (isName_checkout checkout), List.append_assoc]
  rfl

/-! ### What a clone does -/

/-- A directory with something in it. -/
def Occupied (fs : FileSystem) (loc : Location) : Prop :=
  fs.lookup loc = some .directory ∧ ∃ name, (fs.lookup (loc ++ [name])).isSome

theorem Occupied.endures (h : Occupied fs loc) (hendures : fs.Endures fs') : Occupied fs' loc := by
  obtain ⟨hdir, name, hsome⟩ := h
  exact ⟨hendures.directory hdir, name, hendures.some hsome⟩

/-- Apart from new directories nothing has changed at and below a location. -/
def KeptBelow (loc : Location) (fs fs' : FileSystem) : Prop :=
  ∀ q, loc <+: q → fs'.lookup q = fs.lookup q ∨
    fs.lookup q = none ∧ fs'.lookup q = some .directory

theorem KeptBelow.of_grows (h : fs.Grows fs') (loc : Location) : KeptBelow loc fs fs' :=
  fun q _ => h.entries q

theorem Occupied.kept (h : Occupied fs loc) (hkept : KeptBelow loc fs fs') : Occupied fs' loc := by
  obtain ⟨hdir, name, hsome⟩ := h
  refine ⟨?_, name, ?_⟩
  · rcases hkept loc List.prefix_rfl with hsame | ⟨-, hdir'⟩
    · exact hsame.trans hdir
    · exact hdir'
  · rcases hkept (loc ++ [name]) (List.prefix_append _ _) with hsame | ⟨-, hdir'⟩
    · rwa [hsame]
    · rw [hdir']
      rfl

/-- What `git` promises about a destination that is named without links: apart from directories
on the way it writes nowhere else, and it does not put a link in its place; it refuses a
directory with something in it and leaves it alone; and there is something in it when it has
come through. -/
structure IsClone (cloneFrom : CloneFrom α) : Prop where
  outside : ∀ {answer : α} {fs : FileSystem} {repoUrl branch} {dest q : Location}, dest ≠ [] →
    Plain fs dest → ¬ dest <+: q →
    (cloneFrom answer fs repoUrl branch dest.toPath).1.lookup q = fs.lookup q ∨
      fs.lookup q = none ∧
        (cloneFrom answer fs repoUrl branch dest.toPath).1.lookup q = some .directory
  noLink : ∀ {answer : α} {fs : FileSystem} {repoUrl branch target} {dest : Location}, dest ≠ [] →
    Plain fs dest →
    (cloneFrom answer fs repoUrl branch dest.toPath).1.lookup dest ≠ some (.symlink target)
  refuses : ∀ {answer : α} {fs : FileSystem} {repoUrl branch} {dest : Location}, dest ≠ [] →
    Plain fs dest → Occupied fs dest →
    ∃ exc, cloneFrom answer fs repoUrl branch dest.toPath = (fs, .error exc)
  occupies : ∀ {answer : α} {fs fs' : FileSystem} {repoUrl branch} {dest : Location}, dest ≠ [] →
    Plain fs dest → cloneFrom answer fs repoUrl branch dest.toPath = (fs', .ok ()) →
    Occupied fs' dest

/-! ### A small clone -/

/-- Whether there is anything in a directory. -/
def isInUse (fs : FileSystem) (loc : Location) : Bool :=
  fs.entries.any fun e => e.1 ≠ [] ∧ e.1.dropLast = loc

/-- A clone of a repository without files: only `HEAD` is written, and only into a directory that
is not there or empty. -/
def cloneHead (_ : Unit) (fs : FileSystem) (_ : String) (_ : Option String) (dest : String) :
    FsResult Unit :=
  let loc := (splitOnChar dest '/').tail
  if isInUse fs loc then (fs, .error (.foreign "GitCommandError"))
  else writeOne fs (loc ++ ["HEAD"]) "ref: refs/heads/main\n"

/-- What the clone does to a destination that is named without links. -/
theorem cloneHead_spec (hne : dest ≠ []) (hplain : Plain fs dest) (repoUrl : String)
    (branch : Option String) :
    (∃ exc, cloneHead () fs repoUrl branch dest.toPath = (fs, .error exc)) ∨
      ∃ fs', cloneHead () fs repoUrl branch dest.toPath = (fs', .ok ()) ∧ ¬ Occupied fs dest ∧
        fs'.tree = PathTree.write fs.tree (dest ++ ["HEAD"]) "ref: refs/heads/main\n" ∧
        ¬ PathTree.Blocked fs.tree (dest ++ ["HEAD"]) ∧ fs.SameLinks fs' := by
  rw [cloneHead, hplain.1.splitOnChar_toPath hne, List.tail_cons]
  by_cases huse : isInUse fs dest = true
  · rw [if_pos huse]
    exact Or.inl ⟨_, rfl⟩
  · rw [if_neg huse]
    have hnone : ∀ name, fs.lookup (dest ++ [name]) = none := by
      intro name
      by_contra hsome
      obtain ⟨e, he⟩ := Option.ne_none_iff_exists'.mp hsome
      have hmem := fs.mem_entries_of_lookup (by simp) he
      exact huse (List.any_eq_true.mpr ⟨_, hmem, by simp⟩)
    have hhead : Plain fs (dest ++ ["HEAD"]) :=
      ⟨hplain.1.append (by simp [Location.IsProper, IsName]),
        hplain.2.concat fun target => by simp [hnone]⟩
    by_cases hblocked : PathTree.Blocked fs.tree (dest ++ ["HEAD"])
    · exact Or.inl (writeOne_of_blocked hhead hblocked _)
    · obtain ⟨fs', hwritten, htree, hlinks, -⟩ := writeOne_of_free hhead hblocked
        "ref: refs/heads/main\n"
      refine Or.inr ⟨fs', hwritten, ?_, htree, hblocked, hlinks⟩
      rintro ⟨-, name, hsome⟩
      simp [hnone] at hsome

theorem isClone_cloneHead : IsClone cloneHead where
  outside := by
    intro _ fs repoUrl branch dest q hne hplain hout
    rcases cloneHead_spec hne hplain repoUrl branch with
      ⟨exc, hraised⟩ | ⟨fs', hcloned, -, htree, hblocked, hlinks⟩
    · exact Or.inl (by rw [hraised])
    · rw [hcloned]
      refine lookup_of_kept hlinks ?_
      rw [htree]
      have hq : q ∉ [(dest ++ ["HEAD"], "ref: refs/heads/main\n")].map Prod.fst := by
        rw [List.map_singleton, List.mem_singleton]
        rintro rfl
        exact hout (List.prefix_append _ _)
      have hwritable : PathTree.Writable fs.tree [(dest ++ ["HEAD"], "ref: refs/heads/main\n")] :=
        ⟨hblocked, trivial⟩
      exact PathTree.kept_writeAll hwritable hq
  noLink := by
    intro _ fs repoUrl branch target dest hne hplain hlink
    rcases cloneHead_spec hne hplain repoUrl branch with
      ⟨exc, hraised⟩ | ⟨fs', hcloned, -, -, -, hlinks⟩
    · rw [hraised] at hlink
      exact hplain.2 dest target List.prefix_rfl hlink
    · rw [hcloned] at hlink
      exact hplain.2 dest target List.prefix_rfl ((hlinks dest target).mpr hlink)
  refuses := by
    intro _ fs repoUrl branch dest hne hplain hoccupied
    rcases cloneHead_spec hne hplain repoUrl branch with hraised | ⟨fs', -, hfree, -⟩
    · exact hraised
    · exact absurd hoccupied hfree
  occupies := by
    intro _ fs fs' repoUrl branch dest hne hplain hresult
    rcases cloneHead_spec hne hplain repoUrl branch with
      ⟨exc, hraised⟩ | ⟨fs'', hcloned, -, htree, -, -⟩
    · cases hraised.symm.trans hresult
    · obtain ⟨rfl, -⟩ := Prod.mk.inj (hcloned.symm.trans hresult)
      have hhead : fs''.lookup (dest ++ ["HEAD"]) = some (.file "ref: refs/heads/main\n") := by
        rw [← tree_eq_file, htree, PathTree.write, if_pos rfl]
      refine ⟨lookup_of_isPrefix hhead (List.prefix_append _ _) (by simp), "HEAD", ?_⟩
      rw [hhead]
      rfl

/-! ### What a call leaves alone -/

/-- A clone, or a call that leaves everything where it is. -/
theorem endures_or_cloning {result : FsResult Unit}
    (hcall : preparationCall cloneFrom root.toPath delivery fs answer place = some result) :
    fs.Endures result.1 ∨ ∃ checkout repoUrl branch, place = .cloning checkout ∧
      cloneFrom answer fs repoUrl branch (checkoutPath root.toPath delivery.runId checkout) =
        result := by
  cases place with
  | makingRoom | makingTarget | makingRoomFor =>
    simp only [preparationCall, Option.some.injEq] at hcall
    rw [← hcall]
    exact Or.inl (grows_makedirsPath fs _).endures
  | writing =>
    simp only [preparationCall, Option.some.injEq] at hcall
    rw [← hcall]
    exact Or.inl (endures_writeFile fs _ _)
  | cloning checkout =>
    cases checkout with
    | source => exact Or.inr ⟨.source, _, _, rfl, Option.some.inj hcall⟩
    | target => exact Or.inr ⟨.target, _, _, rfl, Option.some.inj hcall⟩
  | prepared | raised => simp [preparationCall] at hcall

/-! ### One start for each run -/

/-- No links on the way to the checkouts. -/
def Straight (root : Location) (deliveries : List Delivery) (fs : FileSystem) : Prop :=
  ∀ delivery ∈ deliveries, ∀ checkout, fs.Canonical (checkoutAt root delivery.runId checkout)

/-- What nobody else does: to put a link on the way to a checkout, or to clear away a source
checkout. -/
structure SparesCheckouts (root : Location) (deliveries : List Delivery) (fs fs' : FileSystem) :
    Prop where
  straight : Straight root deliveries fs → Straight root deliveries fs'
  occupied : ∀ runId, Occupied fs (checkoutAt root runId .source) →
    Occupied fs' (checkoutAt root runId .source)

/-- The work directory and the runs have the names that the paths are built from. -/
structure Named (root : Location) (deliveries : List Delivery) : Prop where
  proper : root.IsProper
  rooted : root ≠ []
  runs : ∀ delivery ∈ deliveries, IsName delivery.runId

def SourceIsThere (root : Location) (fs : FileSystem) (runId : String) : Prop :=
  Occupied fs (checkoutAt root runId .source)

/-- Checkouts do not lie in one another. -/
theorem checkoutAt_unique {checkout' : Checkout} {runId' : String}
    (h : checkoutAt root runId checkout <+: q) (h' : checkoutAt root runId' checkout' <+: q) :
    runId = runId' ∧ checkout = checkout' := by
  have hlen : (checkoutAt root runId checkout).length =
      (checkoutAt root runId' checkout').length := by
    simp [checkoutAt]
  have heq := (List.prefix_of_prefix_length_le h h' hlen.le).eq_of_length hlen
  obtain ⟨hrun, hname⟩ : runId = runId' ∧ checkout.name = checkout'.name := by
    simpa [checkoutAt] using heq
  refine ⟨hrun, ?_⟩
  cases checkout <;> cases checkout' <;> simp_all [Checkout.name]

theorem eq_of_prefix_checkoutAt {checkout' : Checkout} {runId' : String}
    (hpre : checkoutAt root runId checkout <+: q) (hq : q <+: checkoutAt root runId' checkout') :
    q = checkoutAt root runId checkout := by
  refine (hpre.eq_of_length ?_).symm
  have hle := hpre.length_le
  have hge := hq.length_le
  simp only [checkoutAt, List.length_append, List.length_cons, List.length_nil] at hle hge ⊢
  omega

/-- Whether a delivery has got past its source checkout. -/
def Preparing.isBehindSource : Preparing → Bool
  | makingRoom .source | cloning .source | raised _ => false
  | makingRoom .target | cloning .target | makingTarget | makingRoomFor _ _ _ | writing _ _ _ |
    prepared => true

/-- The run that a delivery has the source checkout of. -/
def heldRun (deliveries : List Delivery) (k : ℕ) (place : Preparing) : Option String :=
  if place.isBehindSource then deliveries[k]?.map Delivery.runId else none

theorem heldRun_of_isBehindSource {k : ℕ} (hk : deliveries[k]? = some delivery)
    (hbehind : place.isBehindSource = true) :
    heldRun deliveries k place = some delivery.runId := by
  simp [heldRun, hbehind, hk]

theorem heldRun_of_prepared {k : ℕ} (hk : deliveries[k]? = some delivery)
    (hprepared : place = .prepared) : heldRun deliveries k place = some delivery.runId := by
  subst hprepared
  exact heldRun_of_isBehindSource hk rfl

/-- A delivery gets past its source checkout by cloning it. -/
theorem cloning_of_isBehindSource (hbefore : place.isBehindSource = false)
    (hafter : (nextPlace delivery place).isBehindSource = true) : place = .cloning .source := by
  cases place with
  | makingRoom checkout => cases checkout <;> simp_all [nextPlace, Preparing.isBehindSource]
  | cloning checkout => cases checkout <;> simp_all [Preparing.isBehindSource]
  | _ => simp_all [nextPlace, Preparing.isBehindSource]

section Clones

variable (hclone : IsClone cloneFrom) (hnamed : Named root deliveries)
  (hmem : delivery ∈ deliveries) (hstraight : Straight root deliveries fs)

theorem checkoutAt_ne_nil : checkoutAt root runId checkout ≠ [] := by
  simp [checkoutAt]

include hnamed hmem

theorem checkoutPath_of_named (checkout : Checkout) :
    checkoutPath root.toPath delivery.runId checkout =
      (checkoutAt root delivery.runId checkout).toPath :=
  checkoutPath_eq hnamed.proper hnamed.rooted (hnamed.runs delivery hmem) checkout

include hstraight

theorem plain_checkoutAt (checkout : Checkout) :
    Plain fs (checkoutAt root delivery.runId checkout) :=
  ⟨isProper_checkoutAt hnamed.proper (hnamed.runs delivery hmem) checkout,
    hstraight delivery hmem checkout⟩

include hclone

/-- No call puts a link on the way to a checkout. -/
theorem straight_of_call {result : FsResult Unit}
    (hcall : preparationCall cloneFrom root.toPath delivery fs answer place = some result) :
    Straight root deliveries result.1 := by
  intro delivery' hmem' checkout' q target hq hlink
  rcases endures_or_cloning hcall with hendures | ⟨checkout, repoUrl, branch, -, hresult⟩
  · exact hstraight delivery' hmem' checkout' q target hq (hendures.symlink hlink)
  · rw [checkoutPath_of_named hnamed hmem] at hresult
    have hplain := plain_checkoutAt hnamed hmem hstraight checkout
    rw [← hresult] at hlink
    by_cases hpre : checkoutAt root delivery.runId checkout <+: q
    · rw [eq_of_prefix_checkoutAt hpre hq] at hlink
      exact hclone.noLink checkoutAt_ne_nil hplain hlink
    · rcases hclone.outside checkoutAt_ne_nil hplain hpre with hsame | ⟨-, hdir⟩
      · exact hstraight delivery' hmem' checkout' q target hq (hsame.symm.trans hlink)
      · cases hdir.symm.trans hlink

/-- No call clears away a source checkout. -/
theorem occupied_of_call {result : FsResult Unit}
    (hcall : preparationCall cloneFrom root.toPath delivery fs answer place = some result)
    (hoccupied : Occupied fs (checkoutAt root runId .source)) :
    Occupied result.1 (checkoutAt root runId .source) := by
  rcases endures_or_cloning hcall with hendures | ⟨checkout, repoUrl, branch, -, hresult⟩
  · exact hoccupied.endures hendures
  · rw [checkoutPath_of_named hnamed hmem] at hresult
    have hplain := plain_checkoutAt hnamed hmem hstraight checkout
    rw [← hresult]
    by_cases hdest : delivery.runId = runId ∧ checkout = .source
    · obtain ⟨rfl, rfl⟩ := hdest
      obtain ⟨exc, hrefused⟩ := hclone.refuses checkoutAt_ne_nil hplain hoccupied
      rw [hrefused]
      exact hoccupied
    · refine hoccupied.kept fun q hq => ?_
      exact hclone.outside checkoutAt_ne_nil hplain fun hpre => hdest (checkoutAt_unique hpre hq)

/-- Who gets past a source checkout found it free. -/
theorem taken_of_call {fs' : FileSystem}
    (hcall : preparationCall cloneFrom root.toPath delivery fs answer place = some (fs', .ok ()))
    (hbefore : place.isBehindSource = false)
    (hafter : (nextPlace delivery place).isBehindSource = true) :
    ¬ Occupied fs (checkoutAt root delivery.runId .source) ∧
      Occupied fs' (checkoutAt root delivery.runId .source) := by
  obtain rfl := cloning_of_isBehindSource hbefore hafter
  have hplain := plain_checkoutAt hnamed hmem hstraight .source
  have hcloned := Option.some.inj hcall
  rw [checkoutPath_of_named hnamed hmem] at hcloned
  refine ⟨fun hoccupied => ?_, hclone.occupies checkoutAt_ne_nil hplain hcloned⟩
  obtain ⟨exc, hrefused⟩ := hclone.refuses checkoutAt_ne_nil hplain hoccupied
  cases hrefused.symm.trans hcloned

end Clones

/-- A turn makes a call, however that ends. -/
theorem exists_call_of_act {k : ℕ}
    (hact : (preparers cloneFrom root.toPath deliveries).act k fs place answer =
      some (fs', place')) :
    ∃ delivery outcome, deliveries[k]? = some delivery ∧
      preparationCall cloneFrom root.toPath delivery fs answer place = some (fs', outcome) := by
  obtain ⟨delivery, hk, ⟨hcall, -⟩ | ⟨exc, hcall, -⟩⟩ := call_of_act hact
  · exact ⟨delivery, _, hk, hcall⟩
  · exact ⟨delivery, _, hk, hcall⟩

section Runs

variable {s : PreparingState} {moves : List (SharedClients.Move α FileSystem)}

/-- The source checkout of a run is a token. -/
theorem takesFree (hclone : IsClone cloneFrom) (hnamed : Named root deliveries) :
    SharedClients.TakesFree (preparers cloneFrom root.toPath deliveries)
      (SparesCheckouts root deliveries) (Straight root deliveries) (heldRun deliveries)
      (SourceIsThere root) where
  turn := by
    intro k fs place answer fs' place' hstraight hact runId
    obtain ⟨delivery, hk, hcalled⟩ := call_of_act hact
    have hmem := List.mem_of_getElem? hk
    rcases hcalled with ⟨hcall, rfl⟩ | ⟨exc, hcall, rfl⟩
    · refine ⟨occupied_of_call hclone hnamed hmem hstraight hcall, fun hheld => ?_⟩
      obtain ⟨hafter, hrun⟩ : (nextPlace delivery place).isBehindSource = true ∧
          delivery.runId = runId := by
        simpa [heldRun, hk] using hheld
      subst hrun
      cases hbefore : place.isBehindSource with
      | true => exact Or.inl (heldRun_of_isBehindSource hk hbefore)
      | false => exact Or.inr (taken_of_call hclone hnamed hmem hstraight hcall hbefore hafter)
    · refine ⟨occupied_of_call hclone hnamed hmem hstraight hcall, fun hheld => ?_⟩
      simp [heldRun, Preparing.isBehindSource] at hheld
  meanwhile := by
    intro fs e fs' hallowed hmeanwhile runId hoccupied
    cases hmeanwhile
    exact hallowed.occupied runId hoccupied

theorem straight_of_run (hclone : IsClone cloneFrom) (hnamed : Named root deliveries)
    (hstraight : Straight root deliveries fs)
    (hrun : (preparers cloneFrom root.toPath deliveries).system.RunWhere
      (SharedClients.Within (SparesCheckouts root deliveries)) (beforePreparing fs) moves s) :
    Straight root deliveries s.shared := by
  refine hrun.invariant (I := fun s => Straight root deliveries s.shared) hstraight ?_
  intro s m s' hs hstep hok
  cases SharedClients.moved_of_step hstep with
  | turn hact =>
    obtain ⟨delivery, outcome, hk, hcall⟩ := exists_call_of_act hact
    exact straight_of_call hclone hnamed (List.mem_of_getElem? hk) hs hcall
  | meanwhile hmeanwhile =>
    cases hmeanwhile
    exact hok.straight hs

/-- However the deliveries to the workers are interleaved, and whatever becomes of each of them,
the graph of a run is started for one delivery at most, and for none if the source checkout of
the run was there before. -/
theorem graph_is_started_once (hclone : IsClone cloneFrom) (hnamed : Named root deliveries)
    (hstraight : Straight root deliveries fs)
    (hrun : (preparers cloneFrom root.toPath deliveries).system.RunWhere
      (SharedClients.Within (SparesCheckouts root deliveries)) (beforePreparing fs) moves s)
    {j k : ℕ} {delivery delivery' : Delivery} (hj : deliveries[j]? = some delivery)
    (hk : deliveries[k]? = some delivery') (hsame : delivery.runId = delivery'.runId)
    (hprepared : s.place j = .prepared) :
    (s.place k = .prepared → j = k) ∧
      ¬ Occupied fs (checkoutAt root delivery.runId .source) := by
  have hfree := takesFree hclone hnamed
  have hknown : ∀ {moves s}, (preparers cloneFrom root.toPath deliveries).system.RunWhere
      (SharedClients.Within (SparesCheckouts root deliveries)) (beforePreparing fs) moves s →
      Straight root deliveries s.shared := straight_of_run hclone hnamed hstraight
  have hstart : ∀ k, heldRun deliveries k ((beforePreparing fs).place k) = none := fun _ => rfl
  have hholdsj := heldRun_of_prepared hj hprepared
  refine ⟨fun hprepared' => ?_, fun hoccupied => ?_⟩
  · have hholdsk : heldRun deliveries k (s.place k) = some delivery.runId := by
      rw [hsame]
      exact heldRun_of_prepared hk hprepared'
    exact (hfree.held_of_run hknown hrun hstart).unique hholdsj hholdsk
  · exact hfree.not_held hknown hrun hstart hoccupied j hholdsj

/-- A job that is delivered twice, next to one of another run. -/
def demoDeliveries : List Delivery :=
  let request : MigrationRequest :=
    { sourceRepoUrl := "/srv/shop.git"
      sourceStack := "springboot"
      targetStack := "fastapi"
      scopeDescription := "all endpoints"
      maxUsd := 5
      maxLlmCalls := 100
      maxWallClockSeconds := 3600 }
  [⟨"a1", request⟩, ⟨"a1", request⟩, ⟨"b2", request⟩]

theorem named_demoDeliveries : Named ["runs"] demoDeliveries :=
  ⟨by simp [Location.IsProper, IsName], by simp, by simp [demoDeliveries, IsName]⟩

theorem lookup_empty (hq : q ≠ []) : FileSystem.empty.lookup q = none := by
  simp [lookup, hq, FileSystem.empty, KeyedList.lookup]

theorem canonical_empty (loc : Location) : FileSystem.empty.Canonical loc := by
  intro q target _ hlink
  by_cases hq : q = []
  · simp [hq] at hlink
  · simp [lookup_empty hq] at hlink

/-- The turns that the deliveries get, one after the other. -/
def demoTurns (turns : List ℕ) : List (SharedClients.Move Unit FileSystem) :=
  turns.map fun k => .turn k ()

/-- Nobody else does anything in such a run. -/
theorem runWhere_demoTurns {turns : List ℕ} {s : PreparingState}
    (ok : PreparingState → SharedClients.Move Unit FileSystem → PreparingState → Prop)
    (hrun : (preparers cloneHead "/runs" demoDeliveries).system.Run (beforePreparing .empty)
      (demoTurns turns) s) (hok : ∀ s k s', ok s (.turn k ()) s') :
    (preparers cloneHead "/runs" demoDeliveries).system.RunWhere ok (beforePreparing .empty)
      (demoTurns turns) s := by
  have honly := hrun.of_inputs (p := fun m => ∃ k, m = .turn k ()) (by simp [demoTurns])
  refine honly.mono ?_
  rintro s _ s' - ⟨k, rfl⟩
  exact hok s k s'

theorem graph_is_started_once_demo : ∃ (moves : List (SharedClients.Move Unit FileSystem))
    (s : PreparingState),
    (preparers cloneHead "/runs" demoDeliveries).system.Run (beforePreparing .empty) moves s ∧
    s.place 0 = .prepared ∧ s.place 1 ≠ .prepared ∧
    ¬ Occupied .empty (checkoutAt ["runs"] "a1" .source) := by
  have hexec : ((preparers cloneHead "/runs" demoDeliveries).system.exec (fun _ _ _ => True)
      (beforePreparing .empty) (demoTurns ([0, 1, 0, 1] ++ List.replicate 11 0))).any
        (fun s => s.place 0 = .prepared) = true := by decide +kernel
  obtain ⟨s, hrun, hprepared⟩ := DrivenSystem.exists_runWhere_of_exec hexec
  have hprepared : s.place 0 = .prepared := by simpa using hprepared
  have hwithin := runWhere_demoTurns
    (SharedClients.Within (SparesCheckouts ["runs"] demoDeliveries)) hrun fun _ _ _ => trivial
  have hstraight : Straight ["runs"] demoDeliveries .empty := fun _ _ _ => canonical_empty _
  have honce := graph_is_started_once isClone_cloneHead named_demoDeliveries hstraight hwithin
    (j := 0) (k := 1) rfl rfl rfl hprepared
  refine ⟨_, s, hrun, hprepared, fun hsecond => ?_, honce.2⟩
  exact absurd (honce.1 hsecond) (by decide)

end Runs

/-! ### What the graph is started on -/

/-- The files below a location, and no links. -/
structure HoldsFiles (fs : FileSystem) (loc : Location) (files : List (String × String)) :
    Prop where
  content : ∀ rel : Location, fs.contentAt (loc ++ rel) =
    (files.map fun file => (splitOnChar file.1 '/', file.2)).lookup rel
  noLink : ∀ (rel : Location) target, fs.lookup (loc ++ rel) ≠ some (.symlink target)

theorem HoldsFiles.kept {files : List (String × String)} (h : HoldsFiles fs loc files)
    (hkept : KeptBelow loc fs fs') : HoldsFiles fs' loc files := by
  refine ⟨fun rel => ?_, fun rel target hlink => ?_⟩
  · rw [← h.content rel]
    rcases hkept (loc ++ rel) (List.prefix_append _ _) with hsame | ⟨hnone, hdir⟩
    · simp [contentAt, hsame]
    · simp [contentAt, hnone, hdir]
  · rcases hkept (loc ++ rel) (List.prefix_append _ _) with hsame | ⟨-, hdir⟩
    · exact h.noLink rel target (hsame.symm.trans hlink)
    · cases hdir.symm.trans hlink

theorem HoldsFiles.canonical {files : List (String × String)} (h : HoldsFiles fs loc files)
    (hcan : fs.Canonical loc) (rel : Location) : fs.Canonical (loc ++ rel) := by
  intro q target hq hlink
  rcases List.prefix_or_prefix_of_prefix hq (List.prefix_append loc rel) with hpre | ⟨below, rfl⟩
  · exact hcan q target hpre hlink
  · exact h.noLink below target hlink

/-- One more file. -/
theorem HoldsFiles.snoc {files : List (String × String)} {path content : String}
    (h : HoldsFiles fs loc files)
    (hnew : splitOnChar path '/' ∉ files.map fun file => splitOnChar file.1 '/')
    (hput : ∀ q, fs'.lookup q =
      if q = loc ++ splitOnChar path '/' then some (.file content) else fs.lookup q) :
    HoldsFiles fs' loc (files ++ [(path, content)]) := by
  refine ⟨fun rel => ?_, fun rel target hlink => ?_⟩
  · rw [List.map_append, List.lookup_append]
    by_cases hrel : rel = splitOnChar path '/'
    · subst hrel
      have hnone : (files.map fun file => (splitOnChar file.1 '/', file.2)).lookup
          (splitOnChar path '/') = none := by
        rw [List.lookup_eq_none_iff]
        intro entry hentry
        obtain ⟨file, hfile, rfl⟩ := List.mem_map.mp hentry
        have hne : splitOnChar path '/' ≠ splitOnChar file.1 '/' := fun heq =>
          hnew (List.mem_map.mpr ⟨file, hfile, heq.symm⟩)
        simpa using hne
      simp [contentAt, hput, hnone]
    · have hother : List.lookup rel
          ([(path, content)].map fun file => (splitOnChar file.1 '/', file.2)) = none := by
        simpa [List.lookup_eq_none_iff] using hrel
      rw [hother, Option.or_none, ← h.content rel]
      simp [contentAt, hput, hrel]
  · rw [hput] at hlink
    split_ifs at hlink
    · cases hlink
    · exact h.noLink rel target hlink

/-- The scaffold files have different names, each along directories. -/
theorem targetScaffold_names {stack : String} {files : List (String × String)}
    (h : targetScaffold stack = some files) :
    (files.map fun file => splitOnChar file.1 '/').Nodup ∧
      ∀ file ∈ files, Location.IsProper (splitOnChar file.1 '/') := by
  unfold targetScaffold at h
  split_ifs at h
  cases h
  refine ⟨by decide +kernel, ?_⟩
  simp only [List.forall_mem_cons, Location.IsProper, IsName]
  decide +kernel

/-- What a delivery finds below the target checkout of its run. -/
def Reached (root : Location) (delivery : Delivery) (fs : FileSystem) : Preparing → Prop
  | .makingRoom .source | .cloning .source | .raised _ => True
  | .makingRoom .target | .cloning .target => delivery.targetRepoUrl?.isSome
  | .makingTarget => HoldsFiles fs (checkoutAt root delivery.runId .target) []
  | .makingRoomFor path content rest | .writing path content rest =>
    ∃ done, targetScaffold delivery.request.targetStack = some (done ++ (path, content) :: rest) ∧
      HoldsFiles fs (checkoutAt root delivery.runId .target) done
  | .prepared => delivery.targetRepoUrl?.isSome ∨
    ∃ files, targetScaffold delivery.request.targetStack = some files ∧
      HoldsFiles fs (checkoutAt root delivery.runId .target) files

theorem reached_nextFile (done : List (String × String)) {rest : List (String × String)}
    (hfiles : targetScaffold delivery.request.targetStack = some (done ++ rest))
    (hholds : HoldsFiles fs (checkoutAt root delivery.runId .target) done) :
    Reached root delivery fs (nextFile rest) := by
  cases rest with
  | nil => exact Or.inr ⟨done, by simpa using hfiles, hholds⟩
  | cons file rest => exact ⟨done, hfiles, hholds⟩

theorem Reached.kept (h : Reached root delivery fs place)
    (hkept : KeptBelow (checkoutAt root delivery.runId .target) fs fs') :
    Reached root delivery fs' place := by
  cases place with
  | makingRoom checkout | cloning checkout => cases checkout <;> exact h
  | raised => trivial
  | makingTarget => exact HoldsFiles.kept h hkept
  | makingRoomFor | writing =>
    obtain ⟨done, hfiles, hholds⟩ := h
    exact ⟨done, hfiles, hholds.kept hkept⟩
  | prepared =>
    rcases h with hrepo | ⟨files, hfiles, hholds⟩
    · exact Or.inl hrepo
    · exact Or.inr ⟨files, hfiles, hholds.kept hkept⟩

section Targets

variable (hclone : IsClone cloneFrom) (hnamed : Named root deliveries)
  (hmem : delivery ∈ deliveries) (hstraight : Straight root deliveries fs)
include hnamed hmem hstraight

/-- Where a file of the scaffold is written. -/
theorem plain_scaffold {done rest : List (String × String)} {path content : String}
    (hfiles : targetScaffold delivery.request.targetStack = some (done ++ (path, content) :: rest))
    (hholds : HoldsFiles fs (checkoutAt root delivery.runId .target) done) :
    Plain fs (checkoutAt root delivery.runId .target ++ splitOnChar path '/') := by
  have hplain := plain_checkoutAt hnamed hmem hstraight .target
  have hpath := (targetScaffold_names hfiles).2 (path, content) (by simp)
  exact ⟨hplain.1.append hpath, hholds.canonical hplain.2 _⟩

/-- One write of the scaffold. -/
theorem openAndWrite_scaffold {done rest : List (String × String)} {path content : String}
    (hfiles : targetScaffold delivery.request.targetStack = some (done ++ (path, content) :: rest))
    (hholds : HoldsFiles fs (checkoutAt root delivery.runId .target) done) {result : FsResult Unit}
    (hcall : preparationCall cloneFrom root.toPath delivery fs answer (.writing path content rest) =
      some result) :
    (∃ exc, result = (fs, .error exc)) ∨ result.2 = .ok () ∧ ∀ q, result.1.lookup q =
      if q = checkoutAt root delivery.runId .target ++ splitOnChar path '/' then
        some (.file content) else fs.lookup q := by
  have hcheckout := isProper_checkoutAt hnamed.proper (hnamed.runs delivery hmem) .target
  have hplain := plain_scaffold hnamed hmem hstraight hfiles hholds
  have hresult := Option.some.inj hcall
  rw [checkoutPath_of_named hnamed hmem, joinRelative_toPath hcheckout checkoutAt_ne_nil,
    openAndWrite_toPath hplain.1 (by simp [checkoutAt])] at hresult
  rw [← hresult]
  rcases writeFile_plain hplain.1 hplain.2 content with ⟨exc, hraised⟩ | ⟨fs', hwritten, hput⟩
  · exact Or.inl ⟨exc, hraised⟩
  · exact Or.inr ⟨by rw [hwritten], by rwa [hwritten]⟩

include hclone

/-- A call for one run touches no other run's target, nor its own before the source is there. -/
theorem keptBelow_of_call {result : FsResult Unit}
    (hcall : preparationCall cloneFrom root.toPath delivery fs answer place = some result)
    (hreached : Reached root delivery fs place)
    (hother : delivery.runId = runId → place.isBehindSource = false) :
    KeptBelow (checkoutAt root runId .target) fs result.1 := by
  cases place with
  | makingRoom | makingTarget | makingRoomFor =>
    simp only [preparationCall, Option.some.injEq] at hcall
    rw [← hcall]
    exact .of_grows (grows_makedirsPath fs _) _
  | cloning checkout =>
    have hplain := plain_checkoutAt hnamed hmem hstraight checkout
    have hdest : ∀ q, checkoutAt root runId .target <+: q →
        ¬ checkoutAt root delivery.runId checkout <+: q := by
      intro q hq hpre
      obtain ⟨hrun, rfl⟩ := checkoutAt_unique hpre hq
      exact absurd (hother hrun) (by simp [Preparing.isBehindSource])
    cases checkout with
    | source | target =>
      simp only [preparationCall, Option.some.injEq, checkoutPath_of_named hnamed hmem] at hcall
      rw [← hcall]
      exact fun q hq => hclone.outside checkoutAt_ne_nil hplain (hdest q hq)
  | writing path content rest =>
    obtain ⟨done, hfiles, hholds⟩ := hreached
    rcases openAndWrite_scaffold hnamed hmem hstraight hfiles hholds hcall with
      ⟨exc, rfl⟩ | ⟨-, hput⟩
    · exact fun q _ => Or.inl rfl
    · intro q hq
      rw [hput, if_neg]
      · exact Or.inl rfl
      · rintro rfl
        obtain ⟨hrun, -⟩ := checkoutAt_unique (List.prefix_append _ _) hq
        exact absurd (hother hrun) (by simp [Preparing.isBehindSource])
  | prepared | raised => simp [preparationCall] at hcall

/-- One call of a delivery that has its source, or is about to get it. -/
theorem reached_of_call
    (hcall : preparationCall cloneFrom root.toPath delivery fs answer place = some (fs', .ok ()))
    (hfree : ¬ Occupied fs (checkoutAt root delivery.runId .source) →
      HoldsFiles fs (checkoutAt root delivery.runId .target) [])
    (hreached : Reached root delivery fs place) :
    Reached root delivery fs' (nextPlace delivery place) := by
  cases place with
  | makingRoom checkout => cases checkout <;> exact hreached
  | cloning checkout =>
    cases checkout with
    | source =>
      rw [nextPlace]
      split_ifs with hrepo
      · exact hrepo
      · have hbehind : (nextPlace delivery (.cloning .source)).isBehindSource = true := by
          rw [nextPlace, if_neg hrepo]
          rfl
        have htaken := taken_of_call hclone hnamed hmem hstraight hcall rfl hbehind
        exact (hfree htaken.1).kept
          (keptBelow_of_call hclone hnamed hmem hstraight hcall hreached fun _ => rfl)
    | target => exact Or.inl hreached
  | makingTarget =>
    simp only [preparationCall, Option.some.injEq] at hcall
    have hgrows := grows_makedirsPath fs (checkoutPath root.toPath delivery.runId .target)
    rw [hcall] at hgrows
    rw [nextPlace]
    split
    · trivial
    · next files hfiles =>
      exact reached_nextFile [] hfiles (HoldsFiles.kept hreached (.of_grows hgrows _))
  | makingRoomFor path content rest =>
    simp only [preparationCall, Option.some.injEq] at hcall
    have hgrows := grows_makedirsPath fs
      (dirname (joinRelative (checkoutPath root.toPath delivery.runId .target) path))
    rw [hcall] at hgrows
    obtain ⟨done, hfiles, hholds⟩ := hreached
    exact ⟨done, hfiles, hholds.kept (.of_grows hgrows _)⟩
  | writing path content rest =>
    obtain ⟨done, hfiles, hholds⟩ := hreached
    rcases openAndWrite_scaffold hnamed hmem hstraight hfiles hholds hcall with
      ⟨exc, hraised⟩ | ⟨-, hput⟩
    · cases hraised
    · refine reached_nextFile (done ++ [(path, content)]) (by simpa using hfiles) ?_
      refine hholds.snoc ?_ hput
      have hnodup := (targetScaffold_names hfiles).1
      rw [List.map_append, List.map_cons, List.nodup_append] at hnodup
      exact fun hin => hnodup.2.2 _ hin _ (by simp) rfl
  | prepared | raised => simp [preparationCall] at hcall

end Targets

/-- A target checkout is left alone as long as no graph works on it. -/
def LeavesTargets (root : Location) (deliveries : List Delivery) (s : PreparingState) :
    SharedClients.Move α FileSystem → PreparingState → Prop
  | .turn _ _, _ => True
  | .meanwhile fs', _ => SparesCheckouts root deliveries s.shared fs' ∧
    ∀ runId, (∀ {k : ℕ} {delivery : Delivery}, deliveries[k]? = some delivery →
        delivery.runId = runId → s.place k ≠ .prepared) →
      KeptBelow (checkoutAt root runId .target) s.shared fs'

/-- Before its source is there, the target checkout of a run is empty; afterwards it holds what
its delivery has written there. -/
structure TargetsKept (root : Location) (deliveries : List Delivery) (s : PreparingState) :
    Prop where
  free : ∀ {k : ℕ} {delivery : Delivery}, deliveries[k]? = some delivery →
    ¬ Occupied s.shared (checkoutAt root delivery.runId .source) →
    HoldsFiles s.shared (checkoutAt root delivery.runId .target) []
  reached : ∀ {k : ℕ} {delivery : Delivery}, deliveries[k]? = some delivery →
    s.place k ≠ .prepared → Reached root delivery s.shared (s.place k)

section Starts

variable {s s' : PreparingState} {moves : List (SharedClients.Move α FileSystem)} {k : ℕ}

theorem ne_prepared_of_call {result : FsResult Unit}
    (hcall : preparationCall cloneFrom root.toPath delivery fs answer place = some result) :
    place ≠ .prepared := by
  rintro rfl
  cases hcall

/-- In front of its source a delivery knows nothing about the target. -/
theorem reached_of_not_behind (hbefore : place.isBehindSource = false) :
    Reached root delivery fs place := by
  cases place with
  | makingRoom checkout | cloning checkout =>
    cases checkout with
    | source => trivial
    | target => cases hbefore
  | raised => trivial
  | makingTarget | makingRoomFor | writing | prepared => cases hbefore

theorem TargetsKept.start (hfresh : ∀ delivery ∈ deliveries,
    HoldsFiles fs (checkoutAt root delivery.runId .target) []) :
    TargetsKept root deliveries (beforePreparing fs) :=
  ⟨fun hk _ => hfresh _ (List.mem_of_getElem? hk), fun _ _ => trivial⟩

/-- A move that leaves alone what the invariant speaks of. -/
theorem TargetsKept.of_kept (h : TargetsKept root deliveries s)
    (hoccupied : ∀ runId, Occupied s.shared (checkoutAt root runId .source) →
      Occupied s'.shared (checkoutAt root runId .source))
    (hfree : ∀ runId, ¬ Occupied s.shared (checkoutAt root runId .source) →
      KeptBelow (checkoutAt root runId .target) s.shared s'.shared)
    (hplace : ∀ {k : ℕ} {delivery : Delivery}, deliveries[k]? = some delivery →
      s'.place k ≠ .prepared → Reached root delivery s'.shared (s'.place k) ∨
        s'.place k = s.place k ∧ ((s.place k).isBehindSource = true →
          KeptBelow (checkoutAt root delivery.runId .target) s.shared s'.shared)) :
    TargetsKept root deliveries s' := by
  refine ⟨fun {k delivery} hk hfree' => ?_, fun {k delivery} hk hne => ?_⟩
  · have hbefore := mt (hoccupied delivery.runId) hfree'
    exact (h.free hk hbefore).kept (hfree delivery.runId hbefore)
  · rcases hplace hk hne with hreached | ⟨hsame, hkept⟩
    · exact hreached
    · rw [hsame] at hne ⊢
      cases hbehind : (s.place k).isBehindSource with
      | true => exact (h.reached hk hne).kept (hkept hbehind)
      | false => exact reached_of_not_behind hbehind

variable (hheld : SharedClients.Held (heldRun deliveries) (SourceIsThere root) s)
include hheld

theorem targetsKept_meanwhile {fs' : FileSystem} (h : TargetsKept root deliveries s)
    (hok : LeavesTargets root deliveries s (.meanwhile fs' : SharedClients.Move α FileSystem)
      ⟨fs', s.place⟩) : TargetsKept root deliveries ⟨fs', s.place⟩ := by
  refine h.of_kept hok.1.occupied ?_ ?_
  · intro runId hfree
    refine hok.2 runId fun hj hrun hprepared => hfree ?_
    exact hheld.taken (hrun ▸ heldRun_of_prepared hj hprepared)
  · intro k delivery hk hne
    refine Or.inr ⟨rfl, fun hbehind => hok.2 delivery.runId fun hj hrun hprepared => ?_⟩
    have hboth := hheld.unique (hrun ▸ heldRun_of_prepared hj hprepared)
      (heldRun_of_isBehindSource hk hbehind)
    subst hboth
    exact hne hprepared

variable (hclone : IsClone cloneFrom) (hnamed : Named root deliveries)
  (hstraight : Straight root deliveries s.shared)
include hclone hnamed hstraight

omit hheld in
/-- A delivery comes to a place where its assertion holds. -/
theorem reached_of_act (h : TargetsKept root deliveries s) (hk : deliveries[k]? = some delivery)
    (hact : (preparers cloneFrom root.toPath deliveries).act k s.shared (s.place k) answer =
      some (fs', place')) : Reached root delivery fs' place' := by
  obtain ⟨delivery', hk', hcalled⟩ := call_of_act hact
  obtain rfl := Option.some.inj (hk.symm.trans hk')
  rcases hcalled with ⟨hcall, rfl⟩ | ⟨exc, hcall, rfl⟩
  · exact reached_of_call hclone hnamed (List.mem_of_getElem? hk) hstraight hcall (h.free hk)
      (h.reached hk (ne_prepared_of_call hcall))
  · trivial

theorem targetsKept_turn (h : TargetsKept root deliveries s)
    (hact : (preparers cloneFrom root.toPath deliveries).act k s.shared (s.place k) answer =
      some (fs', place')) :
    TargetsKept root deliveries ⟨fs', Function.update s.place k place'⟩ := by
  obtain ⟨delivery, outcome, hk, hcall⟩ := exists_call_of_act hact
  have hmem := List.mem_of_getElem? hk
  have hne := ne_prepared_of_call hcall
  have hkept : ∀ runId, (delivery.runId = runId → (s.place k).isBehindSource = false) →
      KeptBelow (checkoutAt root runId .target) s.shared fs' := fun runId hother =>
    keptBelow_of_call hclone hnamed hmem hstraight hcall (h.reached hk hne) hother
  refine h.of_kept (fun runId => occupied_of_call hclone hnamed hmem hstraight hcall) ?_ ?_
  · intro runId hfree
    refine hkept runId fun hrun => ?_
    rw [Bool.eq_false_iff]
    intro hbehind
    exact hfree (hheld.taken (hrun ▸ heldRun_of_isBehindSource hk hbehind))
  · intro j delivery' hj hne'
    dsimp only at hne' ⊢
    by_cases hjk : j = k
    · subst hjk
      rw [Function.update_self]
      exact Or.inl (reached_of_act hclone hnamed hstraight h hj hact)
    · rw [Function.update_of_ne hjk]
      refine Or.inr ⟨rfl, fun hbehind' => hkept delivery'.runId fun hrun => ?_⟩
      rw [Bool.eq_false_iff]
      intro hbehind
      exact hjk (hheld.unique (heldRun_of_isBehindSource hj hbehind')
        (hrun ▸ heldRun_of_isBehindSource hk hbehind))

end Starts

section Scaffolds

variable {s s' : PreparingState} {moves : List (SharedClients.Move α FileSystem)} {k : ℕ}

theorem within_of_leavesTargets
    (hrun : (preparers cloneFrom root.toPath deliveries).system.RunWhere
      (LeavesTargets root deliveries) (beforePreparing fs) moves s) :
    (preparers cloneFrom root.toPath deliveries).system.RunWhere
      (SharedClients.Within (SparesCheckouts root deliveries)) (beforePreparing fs) moves s := by
  refine hrun.mono fun s m s' _ hok => ?_
  cases m with
  | turn => trivial
  | meanwhile => exact hok.1

/-- No link is on the way, and every source checkout in hand is there and in one hand. -/
theorem held_of_leavesTargets (hclone : IsClone cloneFrom) (hnamed : Named root deliveries)
    (hstraight : Straight root deliveries fs)
    (hrun : (preparers cloneFrom root.toPath deliveries).system.RunWhere
      (LeavesTargets root deliveries) (beforePreparing fs) moves s) :
    Straight root deliveries s.shared ∧
      SharedClients.Held (heldRun deliveries) (SourceIsThere root) s :=
  ⟨straight_of_run hclone hnamed hstraight (within_of_leavesTargets hrun),
    (takesFree hclone hnamed).held_of_run (straight_of_run hclone hnamed hstraight)
      (within_of_leavesTargets hrun) fun _ => rfl⟩

theorem targetsKept_of_run (hclone : IsClone cloneFrom) (hnamed : Named root deliveries)
    (hstraight : Straight root deliveries fs)
    (hfresh : ∀ delivery ∈ deliveries, HoldsFiles fs (checkoutAt root delivery.runId .target) [])
    (hrun : (preparers cloneFrom root.toPath deliveries).system.RunWhere
      (LeavesTargets root deliveries) (beforePreparing fs) moves s) :
    TargetsKept root deliveries s := by
  refine hrun.invariant_under (J := TargetsKept root deliveries)
    (held_of_leavesTargets hclone hnamed hstraight) (.start hfresh) ?_
  rintro s m s' ⟨hstraight, hheld⟩ h hstep hok
  cases SharedClients.moved_of_step hstep with
  | turn hact => exact targetsKept_turn hheld hclone hnamed hstraight h hact
  | meanwhile hmeanwhile =>
    cases hmeanwhile
    exact targetsKept_meanwhile hheld h hok

/-- When the graph of a run without a target repository is started, its workspace holds the files
of the scaffold, each with its content, and nothing else: however the deliveries of this run and of
others are interleaved, and whatever became of those before. -/
theorem graph_starts_on_the_scaffold (hclone : IsClone cloneFrom) (hnamed : Named root deliveries)
    (hstraight : Straight root deliveries fs)
    (hfresh : ∀ delivery ∈ deliveries, HoldsFiles fs (checkoutAt root delivery.runId .target) [])
    (hrun : (preparers cloneFrom root.toPath deliveries).system.RunWhere
      (LeavesTargets root deliveries) (beforePreparing fs) moves s)
    (hk : deliveries[k]? = some delivery) (hrepo : delivery.targetRepoUrl? = none)
    (hstep : (preparers cloneFrom root.toPath deliveries).system.step s (.turn k answer) = some s')
    (hprepared : s'.place k = .prepared) :
    ∃ files, targetScaffold delivery.request.targetStack = some files ∧
      HoldsFiles s'.shared (checkoutAt root delivery.runId .target) files := by
  have hkept := targetsKept_of_run hclone hnamed hstraight hfresh hrun
  obtain ⟨hstraight, -⟩ := held_of_leavesTargets hclone hnamed hstraight hrun
  cases SharedClients.moved_of_step hstep with
  | @turn _ _ fs' place' hact =>
    have hreached := reached_of_act hclone hnamed hstraight hkept hk hact
    have hplace : place' = .prepared := by simpa using hprepared
    rw [hplace, Reached, hrepo] at hreached
    exact hreached.resolve_left (by simp)

theorem holdsFiles_empty (hne : loc ≠ []) : HoldsFiles .empty loc [] := by
  have hnone : ∀ rel : Location, FileSystem.empty.lookup (loc ++ rel) = none :=
    fun rel => lookup_empty (by simp [hne])
  exact ⟨fun rel => by simp [contentAt, hnone], fun rel target => by simp [hnone]⟩

theorem graph_starts_on_the_scaffold_demo : ∃ (moves : List (SharedClients.Move Unit FileSystem))
    (s s' : PreparingState),
    (preparers cloneHead "/runs" demoDeliveries).system.Run (beforePreparing .empty) moves s ∧
    (preparers cloneHead "/runs" demoDeliveries).system.step s (.turn 0 ()) = some s' ∧
    s'.place 0 = .prepared ∧ ∃ files, targetScaffold "fastapi" = some files ∧
      HoldsFiles s'.shared (checkoutAt ["runs"] "a1" .target) files := by
  have hexec : ((preparers cloneHead "/runs" demoDeliveries).system.exec (fun _ _ _ => True)
      (beforePreparing .empty) (demoTurns ([2, 0, 1, 2, 0, 1] ++ List.replicate 10 0 ++ [2]))).any
        (fun s => ((preparers cloneHead "/runs" demoDeliveries).system.step s (.turn 0 ())).any
          fun s' => s'.place 0 = .prepared) = true := by decide +kernel
  obtain ⟨s, hrun, hlast⟩ := DrivenSystem.exists_runWhere_of_exec hexec
  obtain ⟨s', hstep, hprepared⟩ := (Option.any_eq_true _ _).mp hlast
  have hprepared : s'.place 0 = .prepared := by simpa using hprepared
  have hleaves := runWhere_demoTurns (LeavesTargets ["runs"] demoDeliveries) hrun
    fun _ _ _ => trivial
  have hstraight : Straight ["runs"] demoDeliveries .empty := fun _ _ _ => canonical_empty _
  have hfiles := graph_starts_on_the_scaffold isClone_cloneHead named_demoDeliveries hstraight
    (fun _ _ => holdsFiles_empty checkoutAt_ne_nil) hleaves (k := 0) rfl rfl hstep hprepared
  exact ⟨_, s, s', hrun, hstep, hprepared, hfiles⟩

end Scaffolds

end StackMigrate
