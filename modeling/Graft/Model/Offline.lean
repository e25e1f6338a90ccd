import Graft.Model.Retry
import Graft.Name

/-
A model that needs no network.

  `Offline.client`       the client of the model;
  `Offline.reply p`      its reply to a payload: three files of one component;
  `Offline.exchange r`   the exchange about a request.

The component is named after the metadata.
-/
namespace Graft.Offline

open Model

def client : Client := { model := "offline".toList, maxAttempts := 1 }

/-- The name of a component when none is given. -/
def defaultName : Text := "prototype".toList

/-- The key of the component among metadata. -/
def componentKey : Text := "component".toList

/-- The name of the component that a payload asks for. -/
def componentName (p : Payload) : Text :=
  let given := (Text.nonEmpty ((Table.get? componentKey p.metadata).map Wide.lossy)).getD defaultName
  match Name.kebab given with
  | [] => defaultName
  | name => name

/-- The lines of the reply about a component. -/
def replyLines (name : Text) : List Text :=
  let symbol := Name.pascal name
  let file (extension : String) : Text :=
    "### filename: ".toList ++ name ++ '/' :: name ++ ".component.".toList ++ extension.toList ++
      " ###".toList
  [file "ts",
   "\x60\x60\x60typescript".toList,
   "import \x7b Component, Input \x7d from '@angular/core';".toList,
   [],
   "@Component(\x7b".toList,
   "  selector: 'app-".toList ++ name ++ "',".toList,
   "  standalone: true,".toList,
   "  templateUrl: './".toList ++ name ++ ".component.html',".toList,
   "  styleUrls: ['./".toList ++ name ++ ".component.scss'],".toList,
   "\x7d)".toList,
   "export class ".toList ++ symbol ++ "Component \x7b".toList,
   "  @Input() title = '".toList ++ symbol ++ "';".toList,
   "\x7d".toList,
   "\x60\x60\x60".toList,
   [],
   file "html",
   "\x60\x60\x60html".toList,
   "<div class=\"p-4 rounded shadow\">\x7b\x7b title \x7d\x7d</div>".toList,
   "\x60\x60\x60".toList,
   [],
   file "scss",
   "\x60\x60\x60scss".toList,
   "\x60\x60\x60".toList,
   []]

/-- The text of the reply to a payload. -/
def replyText (p : Payload) : Text := List.intercalate ['\n'] (replyLines (componentName p))

def reply (p : Payload) : Reply Wide := .text (replyText p)

/-- The exchange about a request.  A request without a payload is not replied to. -/
def exchange (r : Request) : Exchange :=
  client.complete (fun _ => (r.payload? client.model).toOption.elim .nothing reply) r

end Graft.Offline
