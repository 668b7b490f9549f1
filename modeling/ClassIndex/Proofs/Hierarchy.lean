import ClassIndex.Proofs.References

/-!
# The hierarchy has no cycles

A class may be mentioned before it is defined, and classes may name themselves or each other as
superclass.  Still no chain of superclasses, enclosing classes and attached classes goes on for
ever: each link leads to a class that is older, since a definition can only name classes that are
there already, and one that is there is not changed by a later definition.

A class inside another one is named by the name of that one and by a name that the instruction for
its definition gives.  The instruction is among the events that were reported (`Host.GivesName`).
-/

namespace ClassIndex

open Declarations (processors)

/-- Every link of a sound model leads to an older class. -/
theorem Model.Sound.wellFounded_linksTo {model : Model} (h : model.Sound) :
    WellFounded fun other id => (model.classAt id).LinksTo other :=
  Subrelation.wf (fun {other id} hlinks => h.descending id other hlinks)
    (InvImage.wf ClassId.index Nat.lt_wfRel.wf)

/-! ## Names that were given -/

/-- The definition of a class of that name was run. -/
def Host.GivesName {σ : Type} (host : Host σ) (name : String) : Prop :=
  ∃ instruction given body flags, .running instruction ∈ host.events ∧
    instruction.command? = some (.ok (.defineClass given body flags)) ∧ given.name? = some name

theorem Arguments.name?_of_name {args : Arguments} {index : Nat} {name : String}
    (h : args.name index = .ok name) : (args.get index).name? = some name := by
  unfold Arguments.name at h
  rcases hname : (args.get index).name? with _ | given
  · rw [hname] at h
    cases h
  · rw [hname] at h
    cases h
    rfl

theorem Command.eq_defineClass_of_errand {command : Command} {self root : Value}
    {taken values : List Value} {qualifier : Option String} {reply : Value → Reply}
    (h : command.errand self root taken = .declare .defineClass qualifier values reply) :
    ∃ name body flags rest, command = .defineClass name body flags ∧ values = name :: rest := by
  unfold errand at h
  split at h <;> cases h
  exact ⟨_, _, _, _, rfl, rfl⟩

theorem Host.Hands.givesName {σ : Type} {host : Host σ} {qualifier : Option String}
    {values : List Value} {processor name : String} (h : host.Hands .defineClass qualifier values)
    (hname : Arguments.name ⟨processor, values⟩ 0 = .ok name) : host.GivesName name := by
  obtain ⟨instruction, command, self, root, taken, reply, hrunning, hcommand, herrand⟩ := h
  obtain ⟨given, body, flags, rest, rfl, rfl⟩ := Command.eq_defineClass_of_errand herrand
  exact ⟨instruction, given, body, flags, hrunning, hcommand, Arguments.name?_of_name hname⟩

/-! ## Names of classes inside others -/

/-- A class is named after the one around it. -/
def Host.NamesNested (host : Host Model) : Prop :=
  ∀ id outer, (host.state.classAt id).enclosing = some outer →
    ∃ name, host.GivesName name ∧
      host.state.fullname id = host.state.fullname outer ++ "::" ++ name

theorem Declarations.enclosing_recordFor (flags : ClassFlags)
    (superclass enclosing : Option ClassId) (fullname : String) :
    (recordFor flags superclass enclosing fullname).enclosing = enclosing := by
  unfold recordFor
  split <;> rfl

/-- A class that a declaration adds inside another one has the name that is handed to it. -/
theorem DeclarationKind.names_of_new {model : Model} {kind : DeclarationKind} {args : Arguments}
    {request : Request} {id outer : ClassId} (hmodel : model.Coherent)
    (hrequest : kind.request args = .ok request)
    (hargs : ∀ index, (args.get index).InModel model) (hnew : model.classes.size ≤ id.index)
    (henclosing : ((request.fulfil model).2.classAt id).enclosing = some outer) :
    kind = .defineClass ∧ outer.index < model.classes.size ∧
      ∃ name, args.name 0 = .ok name ∧
        (request.fulfil model).2.fullname id = model.fullname outer ++ "::" ++ name := by
  obtain ⟨deed, hmeans⟩ := exists_means_of_request hrequest hmodel hargs
  have hbound := Model.index_lt_of_linksTo (Or.inr (Or.inl henclosing))
  rcases Request.classAt_of_new hmodel hmeans hnew hbound with
    ⟨enclosing, name, record, rfl, hrecord⟩ | ⟨base, -, hcompanion⟩
  · rw [hrecord] at henclosing
    obtain ⟨hname, hkind⟩ := eq_of_define hrequest
    rcases hkind with ⟨-, rfl⟩ | ⟨rfl, hscope, superclass, flags, -, -, -, rfl⟩
    · cases henclosing
    · rw [Declarations.enclosing_recordFor] at henclosing
      subst henclosing
      refine ⟨rfl, hargs 3 outer hscope.symm, name, hname, ?_⟩
      rw [Model.fullname, hrecord, (ClassRecord.isHeading_recordFor _ _ _ _).fullname]
      rfl
  · rw [hcompanion.enclosing] at henclosing
    cases henclosing

theorem Host.NamesNested.dispatch {host after : Host Model} {opcode : Opcode}
    {qualifier : Option String} {values : List Value} {outcome : Except RunError Value}
    (h : host.NamesNested) (hsound : host.state.Sound)
    (hhands : host.Hands opcode qualifier values)
    (hvalues : ∀ value ∈ values, value.Within host.state)
    (hrun : (processors.dispatch opcode qualifier values).run.run host = (outcome, after)) :
    after.NamesNested := by
  obtain ⟨hevents, hcases⟩ := Declarations.dispatch_cases hrun
  have hgives (name : String) : host.GivesName name → after.GivesName name := by
    rintro ⟨instruction, given, body, flags, hrunning, hcommand, hname⟩
    exact ⟨instruction, given, body, flags, hevents _ hrunning, hcommand, hname⟩
  rcases hcases with hsame | ⟨kind, request, hopcode, hrequest, hstate, -⟩
  · intro id outer henclosing
    rw [hsame] at henclosing ⊢
    obtain ⟨name, hname, hfullname⟩ := h id outer henclosing
    exact ⟨name, hgives name hname, hfullname⟩
  · have hindexed := hsound.owned.coherent.indexed
    have hproper := DeclarationKind.isProper_of_request hrequest
    have hextends := (Request.grows_fulfil hproper host.state hindexed).2
    have hargs := fun index =>
      (Declarations.keeps_sound.get hvalues opcode.name index).inModel
    have hfullname {id : ClassId} (hid : id.index < host.state.classes.size) :
        (request.fulfil host.state).2.fullname id = host.state.fullname id :=
      (hextends.records id hid).fullname
    intro id outer henclosing
    rw [hstate] at henclosing ⊢
    by_cases hold : id.index < host.state.classes.size
    · rw [(hextends.records id hold).enclosing] at henclosing
      obtain ⟨name, hname, hnamed⟩ := h id outer henclosing
      have houter := hsound.index_lt_of_linksTo (Or.inr (Or.inl henclosing))
      refine ⟨name, hgives name hname, ?_⟩
      rw [hfullname hold, hfullname houter, hnamed]
    · obtain ⟨rfl, houter, name, hname, hnamed⟩ := DeclarationKind.names_of_new
        hsound.owned.coherent hrequest hargs (show host.state.classes.size ≤ id.index by omega)
        henclosing
      obtain rfl := List.mem_singleton.1 hopcode
      refine ⟨name, hgives name (hhands.givesName hname), ?_⟩
      rw [hnamed, hfullname houter]

theorem Declarations.preserves_namesNested :
    processors.Preserves (fun host => host.state.Sound ∧ host.NamesNested) Value.Within := by
  refine keeps_sound.preserves.and (fun event hnames id outer henclosing => ?_)
    fun hhands hsound hnames hvalues hrun => hnames.dispatch hsound hhands hvalues hrun
  obtain ⟨name, ⟨instruction, given, body, flags, hrunning, hgiven⟩, hfullname⟩ :=
    hnames id outer henclosing
  exact ⟨name, ⟨instruction, given, body, flags, Array.mem_push_of_mem _ hrunning, hgiven⟩,
    hfullname⟩

namespace Indexing

/-- At any time, no chain of superclasses, enclosing classes and attached classes goes on for ever,
and a class inside another one is named by the name of that one and a name that the definition of a
class was given. -/
theorem wellFounded_links_of_reached {team : Team} (h : team.Reached) :
    (WellFounded fun other id => (team.host.state.classAt id).LinksTo other) ∧
      ∀ id outer, (team.host.state.classAt id).enclosing = some outer →
        ∃ name, team.host.GivesName name ∧
          team.host.state.fullname id = team.host.state.fullname outer ++ "::" ++ name := by
  have hupholds := h.upholds Declarations.preserves_namesNested
    ⟨Model.sound_empty, fun _ _ henclosing => by cases henclosing⟩
  exact ⟨hupholds.good.1.wellFounded_linksTo, hupholds.good.2⟩

/-- Defines a class below one that is not known yet, and a class inside the singleton class of a
third one. -/
def entangled : Sequence :=
  let part := Demo.appendClass (.start "singleton class" .classBody) "Part" none Demo.base .empty
  let tool := (Sequence.start "<class:Tool>" .classBody).putSelf.putNil
    |>.defineClass "singleton" part.leave .singletonBody
  let first := Demo.appendClass (.start "<main>" .top) "First" (some "Second") Demo.base
    .withSuperclass
  (Demo.appendClass first.pop "Tool" none tool .empty).leave

/-- Defines the second class below the first one, and a class below itself. -/
def entangling : Sequence :=
  let second := Demo.appendClass (.start "<main>" .top) "Second" (some "First") Demo.base
    .withSuperclass
  (Demo.appendClass second.pop "Own" (some "Own") Demo.base .withSuperclass).leave

/-- Two classes that are each defined below the other, and one inside the singleton class that is
attached to a third one, form no cycle. -/
theorem wellFounded_links_of_reached_entangled :
    ∃ outcomes final,
      indexAll 4 .nil [entangled, entangling] { state := {} } = some (outcomes, final) ∧
      (final.state.classAt ⟨1⟩).superclass = some ⟨0⟩ ∧
      (final.state.classAt ⟨4⟩).enclosing = some ⟨3⟩ ∧
      (final.state.classAt ⟨3⟩).attached = some ⟨2⟩ ∧
      (WellFounded fun other id => (final.state.classAt id).LinksTo other) ∧
      ∃ name, final.GivesName name ∧
        final.state.fullname ⟨4⟩ = final.state.fullname ⟨3⟩ ++ "::" ++ name := by
  have hcheck : (indexAll 4 .nil [entangled, entangling] { state := {} }).any (fun ending =>
      (ending.2.state.classAt ⟨1⟩).superclass == some ⟨0⟩ &&
        (ending.2.state.classAt ⟨4⟩).enclosing == some ⟨3⟩ &&
        (ending.2.state.classAt ⟨3⟩).attached == some ⟨2⟩) = true := by
    decide +kernel
  obtain ⟨⟨outcomes, final⟩, hall, hchecked⟩ := (Option.any_eq_true _ _).1 hcheck
  simp only [Bool.and_eq_true, beq_iff_eq] at hchecked
  obtain ⟨⟨hsuperclass, henclosing⟩, hattached⟩ := hchecked
  obtain ⟨memories, hreached⟩ := Team.reached_of_indexAll .start hall
  obtain ⟨hwellFounded, hnamed⟩ := wellFounded_links_of_reached hreached
  exact ⟨outcomes, final, hall, hsuperclass, henclosing, hattached, hwellFounded,
    hnamed ⟨4⟩ ⟨3⟩ henclosing⟩

end Indexing

end ClassIndex
