import Uzi.Fs.Boot

/-!
# Volumes

From the boot on, as long as no name is given to a directory that has it already, the calls of the processes on the open
files and `ch_link` on the directories show a run of a volume: flat files, and a dictionary for each directory.
-/

namespace Uzi
open Exec FlatFile Dictionary

variable {s s' s'' : Kernel} {dev : Nat} {I : Finset Inoptr} {rest : List Dinode} {L : List Word} {wd : Inoptr}
  {oldname newname name : Nat → Byte} {nindex : Option Inoptr} {num : Word}

/-! ## Runs -/

section Runs

variable {D : Finset Inoptr} {sub : D ⊆ I} {es : List (Change D I (Fin OFTSIZE) Byte (List Byte) Word)}

/-- The dictionaries and the flat files of a device. -/
noncomputable def Kernel.volume (s : Kernel) (dev : Nat) (I D : Finset Inoptr) :
    Volume D I (Fin OFTSIZE) Byte (List Byte) Word :=
  ⟨fun wd => s.names dev wd, s.flat dev I⟩

/-- A directory as one of the files. -/
def fileOf (sub : D ⊆ I) (wd : D) : I := ⟨wd, sub wd.2⟩

/-- Calls of the processes on the open files `I`, of which the directories `D` are not written, and calls of `ch_link`
on these. No name is given to a directory that has it already. -/
inductive VolumeRun (dev : Nat) (sub : D ⊆ I) (s : Kernel) :
    List (Change D I (Fin OFTSIZE) Byte (List Byte) Word) → Kernel → Prop
  | start : VolumeRun dev sub s [] s
  | switch {es : List (Change D I (Fin OFTSIZE) Byte (List Byte) Word)} {s' : Kernel} (u : UData)
    (run : VolumeRun dev sub s es s') : VolumeRun dev sub s es (s'.withUdata u)
  | file {es : List (Change D I (Fin OFTSIZE) Byte (List Byte) Word)} {s' s'' : Kernel} {c : FlatCall} {i : I}
    {r : Option Word} (run : VolumeRun dev sub s es s') (opened : s'.Describes c.descriptor i) (fits : c.Fits s' i)
    (spares : ∀ wd, ¬ (c.action i s' r s'').Writes (fileOf sub wd)) (returned : c.run s' = .ok (r, s'')) :
    VolumeRun dev sub s (es ++ [.act (c.action i s' r s'')]) s''
  | link {es : List (Change D I (Fin OFTSIZE) Byte (List Byte) Word)} {s' s'' : Kernel} {wd : D}
    {oldname newname : Nat → Byte} {nindex : Option Inoptr} (run : VolumeRun dev sub s es s')
    (error : s'.udata.uError = .ok)
    (fresh : stem newname = stem oldname ∨ s'.names dev wd (stem newname) = none)
    (returned : chLink wd oldname newname nindex s' = .ok (true, s'')) :
    VolumeRun dev sub s (es ++ [.link wd (stem oldname) (stem newname) (s'.numOf nindex)]) s''
  | refused {es : List (Change D I (Fin OFTSIZE) Byte (List Byte) Word)} {s' s'' : Kernel} {wd : D}
    {oldname newname : Nat → Byte} {nindex : Option Inoptr} (run : VolumeRun dev sub s es s')
    (error : s'.udata.uError = .ok) (returned : chLink wd oldname newname nindex s' = .ok (false, s'')) :
    VolumeRun dev sub s es s''

/-- The other directories are in order as before. -/
lemma Kernel.LeavesOthers.tidy {wd' : Inoptr} (others : s.LeavesOthers s' dev I wd) (mem : wd' ∈ I) (ne : wd' ≠ wd)
    (tidy : s.Tidy dev wd') : s'.Tidy dev wd' ∧ s'.names dev wd' = s.names dev wd' :=
  (others.keepsFile mem ne).tidy tidy

/-- The other files are as before. -/
lemma Kernel.LeavesOthers.flat {i : I} (others : s.LeavesOthers s' dev I wd) (ne : (i : Inoptr) ≠ wd) :
    (s'.flat dev I).bytes i = (s.flat dev I).bytes i ∧ (s'.flat dev I).size i = (s.flat dev I).size i :=
  ⟨Kernel.byteAt_congr (others.data i i.2 ne), congrArg (fun c => c.cNode.iSize.val) (others.inodes i ne)⟩

namespace Kernel.Organised

variable {wd : D} (h : s.Organised dev I D rest)
include h

/-- What changes one directory leaves all in order if it does so with this one. -/
lemma changed (changed : s.Changed s' dev I rest wd) (tidy : s'.Tidy dev wd) (sub : D ⊆ I) :
    s'.Organised dev I D rest := by
  obtain ⟨ordered, others⟩ := changed
  refine ⟨ordered, fun wd' mem => ?_⟩
  by_cases e : wd' = wd
  · exact e ▸ tidy
  · exact (others.tidy (sub mem) e (h.directories wd' mem)).1

/-- The dictionaries after a change of one. -/
lemma names_eq (sub : D ⊆ I) (changed : s.Changed s' dev I rest wd) :
    (s'.volume dev I D).names = Function.update (s.volume dev I D).names wd (s'.names dev wd) := by
  funext wd'
  by_cases e : wd' = wd
  · rw [e, Function.update_self]
    rfl
  · rw [Function.update_of_ne e]
    exact (changed.2.tidy (sub wd'.2) (fun e' => e (Subtype.ext e')) (h.directories wd' wd'.2)).2

/-- A call on a file shows an action. -/
lemma wp_file {c : FlatCall} {i : I} (sub : D ⊆ I) (hdev : dev < NDEVS) (opened : s.Describes c.descriptor i)
    (fits : c.Fits s i) :
    wp c.run
      (fun r s' => (∀ wd, ¬ (c.action i s r s').Writes (fileOf sub wd)) →
        Volume.Step (fileOf sub) [] (s.volume dev I D) (.act (c.action i s r s')) (s'.volume dev I D) ∧
          s'.Organised dev I D rest) (fun _ => False) s := by
  obtain ⟨L, ordered⟩ := h.files
  refine wp_post (FlatCall.wp_run hdev ordered opened fits) fun r s' got spares => ?_
  obtain ⟨ordered', allowed, flat, -, keeps⟩ := got
  have same : ∀ wd : D, s'.Tidy dev wd ∧ s'.names dev wd = s.names dev wd := fun wd =>
    (keeps (fileOf sub wd) (spares wd)).tidy (h.directories wd wd.2)
  have after : s'.volume dev I D = { s.volume dev I D with
      files := (s.volume dev I D).files.after (c.action i s r s') } := by
    rw [Kernel.volume, flat]
    exact congrArg (Volume.mk · _) (funext fun wd => (same wd).2)
  refine ⟨?_, ordered', fun wd mem => (same ⟨wd, mem⟩).1⟩
  rw [after]
  exact .act allowed spares

/-- `ch_link` lets an entry give way, or changes nothing. -/
lemma wp_link (sub : D ⊆ I) (hdev : dev < NDEVS) (error : s.udata.uError = .ok) :
    wp (chLink wd oldname newname nindex)
      (fun r s' =>
        (r = true → stem newname = stem oldname ∨ s.names dev wd (stem newname) = none →
          Volume.Step (fileOf sub) [] (s.volume dev I D) (.link wd (stem oldname) (stem newname) (s.numOf nindex))
            (s'.volume dev I D) ∧ s'.Organised dev I D rest) ∧
        (r = false → s'.volume dev I D = s.volume dev I D ∧ s'.Organised dev I D rest ∧
          (getperm s wd &&& OTH_WR ≠ 0 → s.names dev wd (stem oldname) = none))) (fun _ => False) s := by
  obtain ⟨L, ordered⟩ := h.files
  have mem := sub wd.2
  have tidy := h.directories wd wd.2
  refine wp_post (wp_chLink_filed hdev ordered mem tidy error) fun r s' got => ?_
  cases got with
  | inl refused =>
    obtain ⟨e, same, nowhere⟩ := refused
    refine ⟨fun yes => Bool.noConfusion (e.symm.trans yes), fun _ => ⟨?_, ?_, fun may => ?_⟩⟩
    · have kept := tidy.same same.size same.slot same.blocks
      refine congr (congrArg Volume.mk ?_) ?_
      · refine (h.names_eq sub same.changed).trans ?_
        rw [kept.2]
        exact Function.update_eq_self wd _
      · refine Kernel.flat_eq (i := fileOf sub wd) (j := 0) same.changed.2 (fun _ _ => same.ofTab ▸ rfl) ?_ ?_
          (same.ofTab ▸ rfl) (fun _ _ => ⟨rfl, rfl⟩) fun _ _ => rfl
        · exact (byteAt_of_slots same.slot).symm
        · exact (congrArg Off.val same.size).symm
    · exact h.changed same.changed (tidy.same same.size same.slot same.blocks).1 sub
    · exact (names_eq_none tidy.distinct).mpr (.inr (nowhere may))
  | inr done =>
    obtain ⟨e, j, le, key, filed⟩ := done
    refine ⟨fun _ fresh => ?_, fun no => Bool.noConfusion (e.symm.trans no)⟩
    have dir := ordered.dirAt mem tidy
    rw [← key] at fresh
    refine ⟨.link ?_ (fun i ne => ?_) ?_, h.changed filed.changed (filed.tidy dir tidy le fresh) sub⟩
    · rw [h.names_eq sub filed.changed, filed.names dir tidy le fresh, key]
      rfl
    · exact filed.changed.2.flat fun e => ne (Subtype.ext e)
    · funext k
      exact congrArg (fun o : Oft => o.oPtr.val) (congrFun filed.ofTab k)

/-- A run shows a run of the volume, and leaves the files and the directories in order. -/
lemma shows {t : Kernel} (hdev : dev < NDEVS) (run : VolumeRun dev sub s es t) :
    (s.volume dev I D).Run (fileOf sub) [] es (t.volume dev I D) ∧ t.Organised dev I D rest := by
  induction run with
  | start => exact ⟨.start, h⟩
  | @switch es s' u _ ih =>
    obtain ⟨shows, ⟨L, ordered⟩, tidy⟩ := ih
    refine ⟨shows, ⟨L, ordered.withUdata⟩, fun wd mem => ?_⟩
    have keeps : s'.KeepsFile (s'.withUdata u) dev wd := ⟨rfl, fun _ => rfl, fun _ => rfl⟩
    exact (keeps.tidy (tidy wd mem)).1
  | file _ opened fits spares returned ih =>
    obtain ⟨shows, organised⟩ := ih
    obtain ⟨step, organised'⟩ := (organised.wp_file sub hdev opened fits).ok returned spares
    exact ⟨shows.next step, organised'⟩
  | link _ error fresh returned ih =>
    obtain ⟨shows, organised⟩ := ih
    obtain ⟨step, organised'⟩ := ((organised.wp_link sub hdev error).ok returned).1 rfl fresh
    exact ⟨shows.next step, organised'⟩
  | refused _ error returned ih =>
    obtain ⟨shows, organised⟩ := ih
    obtain ⟨same, organised', -⟩ := ((organised.wp_link sub hdev error).ok returned).2 rfl
    rw [same]
    exact ⟨shows, organised'⟩

end Kernel.Organised

/-- On a device in order the directories are dictionaries: what any processes do with the open files and with `ch_link`
is a run of the volume, in which every `ch_link` that succeeds lets one entry give way to another one and nothing else
changes an entry. An entry that is there can always be changed by who may write. A search goes on to open what the
dictionary has. -/
theorem directories_are_dictionaries {t : Kernel} (hdev : dev < NDEVS) (h : s.Organised dev I D rest)
    (run : VolumeRun dev sub s es t) :
    (s.volume dev I D).Run (fileOf sub) [] es (t.volume dev I D) ∧
      (∀ (wd : D) (name : Nat → Byte), stem name ≠ [] →
        ∃ t', t.Shown t' ∧ srchDir wd name t = openFound dev (t.names dev wd (stem name)) t') ∧
      ∀ (wd : D) (oldname newname : Nat → Byte) (nindex : Option Inoptr), t.udata.uError = .ok →
        getperm t wd &&& OTH_WR ≠ 0 → t.names dev wd (stem oldname) ≠ none →
          ∃ t', chLink wd oldname newname nindex t = .ok (true, t') := by
  obtain ⟨shows, organised⟩ := h.shows hdev run
  obtain ⟨L, ordered⟩ := organised.files
  refine ⟨shows, fun wd name named => ?_, fun wd oldname newname nindex error may there => ?_⟩
  · exact srchDir_names hdev ordered (sub wd.2) (organised.directories wd wd.2) named
  · obtain ⟨r, t', ran, -, fails⟩ := (organised.wp_link sub hdev error).returns
    cases r with
    | true => exact ⟨t', ran⟩
    | false => exact absurd ((fails rfl).2.2 may) there

/-- The name `a`. -/
def nameA : Nat → Byte := fun i => if i = 0 then 0x61 else 0

/-- No name. -/
def noName : Nat → Byte := fun _ => 0

/-- A link is made on the new disk. -/
lemma link_newDisk :
    wp (mountRoot 0) (fun ok s₁ => ok = true ∧ s₁.udata.uError = .ok ∧
      wp (chLink s₁.root noName nameA (some s₁.root)) (fun r _ => r = true) (fun _ => False) s₁)
      (fun _ => False) newDisk := by
  decide +kernel

/-- On the small disk the root directory gets a third entry. -/
lemma linked_newDisk : ∃ s₁ t : Kernel, mountRoot 0 newDisk = .ok (true, s₁) ∧ s₁.Organised 0 {s₁.root} {s₁.root} [] ∧
    VolumeRun 0 (Finset.Subset.refl {s₁.root}) s₁
      [.link ⟨s₁.root, Finset.mem_singleton_self _⟩ (stem noName) (stem nameA) (s₁.numOf (some s₁.root))] t := by
  have boots := started_newDisk.wp_mountRoot (by decide) accepts_newDisk cell_newDisk
  have both := wp_mono (boots.and link_newDisk) (fun _ _ => id) fun _ bad => bad.1
  obtain ⟨ok, s₁, ran, ⟨-, has, -⟩, rfl, error, links⟩ := both.returns
  obtain ⟨r, t, linked, rfl⟩ := links.returns
  have root := has rfl
  have fresh : s₁.names 0 s₁.root (stem nameA) = none := by
    rw [root.names]
    decide
  refine ⟨s₁, t, ran, root.organised, ?_⟩
  exact VolumeRun.start.link error (.inr fresh) linked

/-- The root directory of the small disk is a dictionary. -/
theorem directories_are_dictionaries_newDisk : ∃ s₁ t : Kernel, mountRoot 0 newDisk = .ok (true, s₁) ∧
    (s₁.volume 0 {s₁.root} {s₁.root}).Run (fileOf (Finset.Subset.refl {s₁.root})) []
      [.link ⟨s₁.root, Finset.mem_singleton_self _⟩ (stem noName) (stem nameA) (s₁.numOf (some s₁.root))]
      (t.volume 0 {s₁.root} {s₁.root}) := by
  obtain ⟨s₁, t, ran, organised, run⟩ := linked_newDisk
  exact ⟨s₁, t, ran, (directories_are_dictionaries (by decide) organised run).1⟩

/-- The last `ch_link` about a name decides what is found under it: the inode that it has linked, or nothing where the
name has given way, whatever is done to other names and to the files. -/
theorem last_link_is_found {t : Kernel} {wd : D} {old new : List Byte}
    {es' : List (Change D I (Fin OFTSIZE) Byte (List Byte) Word)} (hdev : dev < NDEVS)
    (h : s.Organised dev I D rest) (named : stem name ≠ [])
    (run : VolumeRun dev sub s (es ++ .link wd old new num :: es') t)
    (about : old = stem name ∨ new = stem name) (off : ∀ e ∈ es', ¬ e.Touches wd (stem name)) :
    ∃ t', t.Shown t' ∧ srchDir wd name t = (if new = stem name then iOpen dev num else pure none) t' := by
  obtain ⟨shows, organised⟩ := h.shows hdev run
  obtain ⟨L, ordered⟩ := organised.files
  obtain ⟨t', shown, search⟩ := srchDir_names hdev ordered (sub wd.2) (organised.directories wd wd.2) named
  have found : t.names dev wd (stem name) = if new = stem name then some num else none :=
    shows.last about off named
  refine ⟨t', shown, search.trans ?_⟩
  rw [found]
  split <;> rfl

/-- What has just been linked on the small disk is found. -/
theorem last_link_is_found_newDisk : ∃ s₁ t t' : Kernel, mountRoot 0 newDisk = .ok (true, s₁) ∧ t.Shown t' ∧
    srchDir s₁.root nameA t = iOpen 0 (s₁.numOf (some s₁.root)) t' := by
  obtain ⟨s₁, t, ran, organised, run⟩ := linked_newDisk
  have named : stem nameA ≠ [] := by decide
  have run : VolumeRun 0 _ s₁ ([] ++ _ :: []) t := run
  obtain ⟨t', shown, search⟩ := last_link_is_found (by decide) organised named run (.inr (by decide)) nofun
  exact ⟨s₁, t, t', ran, shown, search⟩

end Runs

end Uzi
