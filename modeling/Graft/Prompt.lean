import Graft.Text.Space

/-
The prompt that asks a model for a component.

  `Prompt.template`   the built-in template;
  `Prompt.render`     a template with its placeholders filled in.

The placeholders of the name, of the style framework and of the request are filled one after
another, so a placeholder inside a value that is filled in earlier is filled as well.
-/
namespace Graft.Prompt

/-- The framework that is asked for unless another is chosen. -/
def defaultFramework : Text := "Tailwind CSS".toList

def nameMark : Text := "[[COMPONENT_NAME]]".toList

def frameworkMark : Text := "[[CSS_FRAMEWORK]]".toList

def requestMark : Text := "[[USER_REQUEST]]".toList

def templateLines : List String :=
  ["You are an expert Angular developer assistant whose SOLE purpose is to generate an Angular " ++
      "component based on a user's request. DO NOT provide any conversational responses, multiple " ++
      "options, or explanations. Just provide the code.",
    "",
    "Your response MUST follow this exact, structured format:",
    "",
    "### filename: [[COMPONENT_NAME]]/[[COMPONENT_NAME]].component.ts ###",
    "\x60\x60\x60typescript",
    "// Angular TypeScript code",
    "\x60\x60\x60",
    "",
    "### filename: [[COMPONENT_NAME]]/[[COMPONENT_NAME]].component.html ###",
    "\x60\x60\x60html",
    "<!-- Angular HTML code -->",
    "\x60\x60\x60",
    "",
    "### filename: [[COMPONENT_NAME]]/[[COMPONENT_NAME]].component.scss ###",
    "\x60\x60\x60scss",
    "/* Angular SCSS code */",
    "\x60\x60\x60",
    "",
    "Instructions:",
    "1. Generate a standalone Angular component.",
    "2. The component's name is \"[[COMPONENT_NAME]]\".",
    "3. The HTML should use the [[CSS_FRAMEWORK]] framework.",
    "4. The TypeScript file should include a component class with relevant @Input() properties " ++
      "and a mock data object for demonstration.",
    "5. The SCSS should only contain styling that cannot be handled by the CSS framework. If no " ++
      "custom styling is needed, leave the SCSS code block empty.",
    "6. The TypeScript file must include \"import \x7b Component \x7d from '@angular/core';\" " ++
      "at the top.",
    "7. Do not include any additional comments or explanations in the code blocks.",
    "8. Ensure the code is valid and can be directly used in an Angular project.",
    "User Request:",
    "[[USER_REQUEST]]",
    ""]

def template : Text := List.intercalate ['\n'] (templateLines.map String.toList)

/-- A template with its placeholders filled in. -/
def render (template name request framework : Text) : Text :=
  let framework := if framework.isEmpty then defaultFramework else framework
  let t := Text.replaceAll nameMark name template
  let t := Text.replaceAll frameworkMark framework t
  Text.replaceAll requestMark (Text.stripped request) t

end Graft.Prompt
