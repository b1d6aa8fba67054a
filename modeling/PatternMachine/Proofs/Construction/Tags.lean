import PatternMachine.Proofs.Construction.Layout
import PatternMachine.Proofs.Pattern.Indices

namespace PatternMachine

def Tagged (captures names : List Nat) (edges : List Edge) : Prop :=
  ∀ e ∈ edges, captures <+: e.groups ∧ e.groups.Sublist (captures ++ names)

namespace Tagged

variable {captures names others : List Nat} {edges front back : List Edge}

theorem nil : Tagged captures names [] := by
  intro e member
  cases member

theorem append (first : Tagged captures names front) (second : Tagged captures names back) :
    Tagged captures names (front ++ back) := by
  intro e member
  rcases List.mem_append.mp member with old | new
  · exact first e old
  · exact second e new

theorem mono (tagged : Tagged captures names edges) (more : names.Sublist others) : Tagged captures others edges := by
  intro e member
  obtain ⟨around, within⟩ := tagged e member
  exact ⟨around, within.trans ((List.Sublist.refl captures).append more)⟩

theorem own (names : List Nat) {e : Edge} (same : e.groups = captures) : Tagged captures names [e] := by
  intro e' member
  cases List.mem_singleton.mp member
  rw [same]
  exact ⟨List.prefix_refl _, List.sublist_append_left _ _⟩

theorem inner {capture : Option Nat} (tagged : Tagged (captures ++ capture.toList) names edges) :
    Tagged captures (capture.toList ++ names) edges := by
  intro e member
  obtain ⟨around, within⟩ := tagged e member
  rw [List.append_assoc] at within
  exact ⟨(List.prefix_append _ _).trans around, within⟩

theorem joining (names : List Nat) (target : StateId) (stops : List StateId) :
    Tagged captures names (stops.map (Edge.joining target captures)) := by
  intro e member
  obtain ⟨_, _, rfl⟩ := List.mem_map.mp member
  exact ⟨List.prefix_refl _, List.sublist_append_left _ _⟩

theorem loopBack {fork next : StateId} {stops : List StateId} (tagged : Tagged captures names edges) :
    Tagged captures names (PatternMachine.loopBack captures fork stops edges next).1 := by
  induction count : stops.length generalizing stops edges next with
  | zero =>
    cases List.eq_nil_of_length_eq_zero count
    rw [PatternMachine.loopBack]
    exact tagged
  | succ n ih =>
    cases stops with
    | nil => cases count
    | cons id later =>
      have shorter : later.length = n := Nat.succ.inj count
      rw [PatternMachine.loopBack]
      split
      · exact ih tagged shorter
      · split
        · exact ih (tagged.append (.own names rfl)) shorter
        · refine ih ?_ (by simpa using shorter)
          intro e member
          obtain ⟨old, present, rfl⟩ := List.mem_map.mp member
          exact tagged old present

end Tagged

namespace Strand

variable {captures names : List Nat} {fork : StateId} {s : Strand}

theorem extend_tagged (tagged : Tagged captures names s.edges) (text : Text) :
    Tagged captures names (s.extend captures text).edges := tagged.append (.own names rfl)

theorem flush_tagged (tagged : Tagged captures names s.edges) : Tagged captures names (s.flush captures).edges := by
  unfold Strand.flush
  split
  · exact tagged
  · exact extend_tagged tagged _

theorem entry_tagged (tagged : Tagged captures names s.edges) : Tagged captures names (s.entry captures fork).edges := by
  unfold Strand.entry
  split
  · exact extend_tagged tagged _
  · exact tagged

theorem approach_tagged (tagged : Tagged captures names s.edges) (starred : Bool) :
    Tagged captures names (s.approach captures fork starred).edges := by
  cases starred with
  | false => exact flush_tagged tagged
  | true => exact entry_tagged (flush_tagged tagged)

end Strand

theorem Sheaf.joined_tagged {captures names : List Nat} {sheaf : Sheaf} (tagged : Tagged captures names sheaf.edges) :
    Tagged captures names (sheaf.joined captures).edges := by
  unfold Sheaf.joined
  split
  · exact tagged
  · exact tagged.append (.joining names _ _)

theorem Sheaf.close_tagged {captures names : List Nat} {sheaf : Sheaf} (tagged : Tagged captures names sheaf.edges)
    (fork : StateId) (starred : Bool) : Tagged captures names (sheaf.close captures fork starred).edges := by
  cases starred with
  | false => exact joined_tagged tagged
  | true => exact tagged.loopBack

mutual
theorem Item.lay_tagged {captures names : List Nat} {fork : StateId} {s : Strand}
    (tagged : Tagged captures names s.edges) :
    (item : Item) → Tagged captures (names ++ item.indices) (item.lay captures fork s).edges
  | .char _ false => tagged.mono (List.sublist_append_left _ _)
  | .char _ true =>
    have approached : Tagged captures names (s.approach captures fork true).edges := Strand.approach_tagged tagged true
    (approached.append (.own names rfl)).mono (List.sublist_append_left _ _)
  | .group capture body starred =>
    have approached : Tagged captures names (s.approach captures fork starred).edges :=
      Strand.approach_tagged tagged starred
    have inner := Item.layAny_tagged (captures ++ capture.toList) (s.approach captures fork starred).stop
      (s.approach captures fork starred).next body
    (approached.mono (List.sublist_append_left _ _)).append
      ((Sheaf.close_tagged inner _ starred).inner.mono (List.sublist_append_right _ _))
theorem Item.layAll_tagged {captures names : List Nat} {fork : StateId} {s : Strand}
    (tagged : Tagged captures names s.edges) :
    (items : List Item) → Tagged captures (names ++ Item.indicesAll items) (Item.layAll captures fork s items).edges
  | [] => tagged.mono (List.sublist_append_left _ _)
  | item :: items => by
    rw [Item.indicesAll, ← List.append_assoc]
    exact Item.layAll_tagged (Item.lay_tagged tagged item) items
theorem Item.layAny_tagged (captures : List Nat) (fork next : StateId) :
    (body : List (List Item)) → Tagged captures (Item.indicesAny body) (Item.layAny captures fork next body).edges
  | [] => .nil
  | branch :: body => by
    have laid : Tagged captures ([] ++ Item.indicesAll branch) (Item.layAll captures fork (.start fork next) branch).edges :=
      Item.layAll_tagged .nil branch
    have later := Item.layAny_tagged captures fork
      ((Item.layAll captures fork (.start fork next) branch).flush captures).next body
    exact ((Strand.flush_tagged laid).mono (List.sublist_append_left _ _)).append
      (later.mono (List.sublist_append_right _ _))
end

end PatternMachine
