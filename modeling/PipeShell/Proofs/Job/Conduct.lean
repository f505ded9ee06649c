import PipeShell.Proofs.Job.Measures
import PipeShell.System.Machine

/-!
How a stage behaves before its program runs, if it is known which files can be opened and which
programs can be run: it makes a few calls at most, and it either runs its program or ends with the
code that its first failure has.
-/

set_option autoImplicit false
set_option relaxedAutoImplicit false

namespace PipeShell

/-- What a process finds in its surroundings: the paths that it can open, and the programs that it
cannot run. -/
structure Outlook where
  opens : Bytes → Access → Bool
  refusal? : List Bytes → Option Errno

/-- Whether an answer agrees with an outlook. Descriptors can always be duplicated. -/
def Outlook.Allows (o : Outlook) : (c : Call) → c.Reply → Prop
  | .duplicate .., reply => reply = .ok ()
  | .openFile path access, .ok fd => o.opens path access = true ∧ fd ≠ Fd.complaints
  | .openFile path access, .error _ => o.opens path access = false
  | .exec arguments, reason => o.refusal? arguments = some reason
  | _, _ => True

namespace Stage

def attaches (o : Outlook) (file? : Option String) (access : Access) : Bool :=
  match file? with
  | none => true
  | some file => '\x00' ∉ file.toList && o.opens (Bytes.ofString file) access

def connects (o : Outlook) (stage : Stage) (before behind : Bool) : Bool :=
  (before || attaches o stage.inputFile .read) &&
  (behind || attaches o stage.outputFile (.replace 0o644))

def fate (o : Outlook) (stage : Stage) (before behind : Bool) : Option UInt8 :=
  if stage.connects o before behind then
    match stage.arguments with
    | [] => some 1
    | name :: _ =>
      (o.refusal? (stage.arguments.map Bytes.ofString)).map fun reason =>
        (StageFault.ofExec name reason).code
  else some 1

/-- The calls that a stage may make before its program runs, of which there is only a limited
number. -/
def conduct (o : Outlook) (stage : Stage) (before behind : Bool) : Contract Nat where
  may n c := 0 < n ∧
    match c with
    | .close fd => fd ≠ Fd.complaints
    | .duplicate _ target => target = Fd.input ∨ target = Fd.output
    | .openFile .. => True
    | .exec _ => stage.connects o before behind = true
    | .write fd _ => fd = Fd.complaints
    | .exit code => stage.fate o before behind = some code
    | _ => False
  gives n c reply n' := n = n' + 1 ∧ o.Allows c reply
  mayStart _ _ _ _ := False
  starts _ _ _ := False

section

variable {o : Outlook} {stage : Stage} {before behind : Bool}

private def Comes (works : Bool) (least : Nat) (r : Except StageFault Unit) (n : Nat) : Prop :=
  least ≤ n ∧ (works = true ∧ r = .ok () ∨ works = false ∧ ∃ fault : StageFault,
    r = .error fault ∧ fault.code = 1)

private theorem close_conduct {fd : Fd} {n least : Nat} (hfd : fd ≠ Fd.complaints)
    (hn : least + 1 ≤ n) : (Program.act (.close fd)).Honours (conduct o stage before behind)
      (fun _ n' => least ≤ n') n := by
  have hpositive : 0 < n := by omega
  refine Program.honours_act ⟨hpositive, hfd⟩ fun _ n' hclose => ?_
  have hcount : n = n' + 1 := hclose.1
  omega

private theorem release_conduct {link : Link} {n least : Nat} (hread : link.readEnd ≠ Fd.complaints)
    (hwrite : link.writeEnd ≠ Fd.complaints) (hn : least + 2 ≤ n) :
    link.release.Honours (conduct o stage before behind) (fun _ n' => least ≤ n') n := by
  have hpositive : 0 < n := by omega
  refine honours_release ⟨hpositive, hread⟩ fun n' hclose => ?_
  have hcount : n = n' + 1 := hclose.1
  exact close_conduct hwrite (by omega)

private theorem redirect_conduct {source target : Fd}
    {cleanUp : Program Unit} {n : Nat} (least cost : Nat)
    (htarget : target = Fd.input ∨ target = Fd.output) (hn : least + cost + 1 ≤ n)
    (hclean : ∀ n', least + cost ≤ n' →
      cleanUp.Honours (conduct o stage before behind) (fun _ n'' => least ≤ n'') n') :
    (redirect source target cleanUp).Honours (conduct o stage before behind)
      (Comes true least) n := by
  have hpositive : 0 < n := by omega
  refine honours_redirect ⟨hpositive, htarget⟩ fun reply n' hdup => ?_
  obtain ⟨hcount, hreply⟩ := hdup
  have hreply : reply = .ok () := hreply
  subst hreply
  exact (hclean n' (by omega)).mono fun _ n'' h => ⟨h, .inl ⟨rfl, rfl⟩⟩

private theorem Connector.conduct {x : Option Link → Step} {source : Link → Fd} {target : Fd}
    {file? : Option String} {access : Access} (hx : Connector x source target file? access)
    (htarget : target = Fd.input ∨ target = Fd.output) {link? : Option Link} {n : Nat} (least : Nat)
    (hlink : ∀ link ∈ link?, link.readEnd ≠ Fd.complaints ∧ link.writeEnd ≠ Fd.complaints)
    (hn : least + 3 ≤ n) : (x link?).Honours (conduct o stage before behind)
      (Comes (link?.isSome || attaches o file? access) least) n := by
  refine hx.honours ?_ ?_ ?_
  · rintro link rfl
    obtain ⟨hread, hwrite⟩ := hlink link rfl
    exact redirect_conduct least 2 htarget hn fun _ => release_conduct hread hwrite
  · rintro rfl file rfl
    refine honours_attachFile (fun hzero => ?_) (fun _ => ⟨by omega, trivial⟩) ?_ ?_
    · exact ⟨by omega, .inr ⟨by simp [attaches, hzero], _, rfl, rfl⟩⟩
    · rintro - reason n' ⟨hcount, hreply⟩
      have hreply : o.opens (Bytes.ofString file) access = false := hreply
      exact ⟨by omega, .inr ⟨by simp [attaches, hreply], _, rfl, rfl⟩⟩
    · rintro hword fd n' ⟨hcount, hreply⟩
      obtain ⟨hopens, hfd⟩ : o.opens (Bytes.ofString file) access = true ∧
          fd ≠ Fd.complaints := hreply
      have hworks : ((none : Option Link).isSome || attaches o (some file) access) = true := by
        simp [attaches, hword, hopens]
      rw [hworks]
      exact redirect_conduct least 1 htarget (by omega) fun _ => close_conduct hfd
  · rintro rfl rfl
    exact ⟨by omega, .inl ⟨rfl, rfl⟩⟩

def effort : Nat := 9

theorem process_conduct {α : Type} {previous next : Option Link}
    (hprevious : ∀ link ∈ previous, link.readEnd ≠ Fd.complaints ∧ link.writeEnd ≠ Fd.complaints)
    (hnext : ∀ link ∈ next, link.readEnd ≠ Fd.complaints ∧ link.writeEnd ≠ Fd.complaints) :
    (stage.process previous next : Program α).Honours (conduct o stage previous.isSome next.isSome)
      (fun _ _ => False) effort := by
  refine honours_process
    (I := fun r n => Comes (previous.isSome || attaches o stage.inputFile .read) 6 r n)
    (O := fun r n => stage.connects o previous.isSome next.isSome = true ∧ r = .ok () ∧ 3 ≤ n ∨
      stage.connects o previous.isSome next.isSome = false ∧ 2 ≤ n ∧
        ∃ fault : StageFault, r = .error fault ∧ fault.code = 1)
    (F := fun fault n => 2 ≤ n ∧
      stage.fate o previous.isSome next.isSome = some fault.code) ?_ ?_ ?_ ?_ ?_ ?_
  · exact (connectInput_connector stage).conduct (.inl rfl) 6 hprevious (Nat.le_refl _)
  · rintro fault n ⟨hn, ⟨-, hok⟩ | ⟨hworks, fault', hfault, hcode⟩⟩
    · cases hok
    · cases hfault
      have hfate : stage.fate o previous.isSome next.isSome = some fault.code := by
        rw [fate, connects, hworks, Bool.false_and, if_neg (by simp), hcode]
      refine honours_releaseAny ⟨by omega, hfate⟩ fun link hlink => ?_
      obtain ⟨hread, hwrite⟩ := hnext link hlink
      exact (release_conduct hread hwrite (show 2 + 2 ≤ n by omega)).mono
        fun _ n' hn' => ⟨hn', hfate⟩
  · rintro n ⟨hn, ⟨hworks, -⟩ | ⟨-, fault, hfault, -⟩⟩
    · refine ((connectOutput_connector stage).conduct (.inr rfl) 3 hnext hn).mono fun r n' hr => ?_
      obtain ⟨hn', ⟨hworks', hok⟩ | ⟨hworks', hfault⟩⟩ := hr
      · exact .inl ⟨by rw [connects, hworks, hworks']; rfl, hok, hn'⟩
      · exact .inr ⟨by rw [connects, hworks', Bool.and_false], by omega, hfault⟩
    · cases hfault
  · rintro fault n (⟨-, hok, -⟩ | ⟨hworks, hn, fault', hfault, hcode⟩)
    · cases hok
    · cases hfault
      exact ⟨hn, by rw [fate, hworks, if_neg (by simp), hcode]⟩
  · rintro n (⟨hconnects, -, hn⟩ | ⟨-, -, fault, hfault, -⟩)
    · refine honours_runProgram (fun harguments => ⟨by omega, ?_⟩) fun name rest harguments => ?_
      · rw [fate, if_pos hconnects, harguments]
        rfl
      · refine ⟨⟨by omega, hconnects⟩, ?_⟩
        rintro reason n' ⟨hcount, hreason⟩
        have hreason : o.refusal? (stage.arguments.map Bytes.ofString) = some reason := hreason
        refine ⟨by omega, ?_⟩
        rw [fate, if_pos hconnects, hreason, harguments]
        rfl
    · cases hfault
  · rintro fault n ⟨hn, hfate⟩
    refine honours_giveUp ⟨by omega, rfl⟩ fun reply n' hput => ?_
    have hcount : n = n' + 1 := hput.1
    exact ⟨by omega, hfate⟩

end

end Stage

end PipeShell
